import Mathlib.Data.Finset.Card
import Mathlib.Data.Fintype.Card
import Mathlib.Logic.Function.Basic

/-!
# `Kyron.Lib.Count`: counters of the threads in a region

A shared counter often says how many threads are in some region of their program: each thread
raises it when it enters and lowers it when it leaves. `CountIs p f n` says that exactly `n`
threads `a` have `p (f a)`, for any type of threads. The lemmas follow the counter when one
thread moves.
-/

set_option autoImplicit false

namespace Kyron.Lib

variable {α β : Type*} {p : β → Prop} {f : α → β} {n : Nat} {a : α} {b : β}

/-- Exactly `n` of the `f a` satisfy `p`. -/
def CountIs (p : β → Prop) (f : α → β) (n : Nat) : Prop :=
  ∃ S : Finset α, S.card = n ∧ ∀ a, a ∈ S ↔ p (f a)

theorem CountIs.none (h : ∀ a, ¬ p (f a)) : CountIs p f 0 :=
  ⟨∅, rfl, fun a => iff_of_false (Finset.notMem_empty a) (h a)⟩

theorem CountIs.not_of_zero (h : CountIs p f 0) (a : α) : ¬ p (f a) := by
  obtain ⟨S, hcard, hmem⟩ := h
  rw [← hmem, Finset.card_eq_zero.mp hcard]
  exact Finset.notMem_empty a

theorem CountIs.pos (h : CountIs p f n) (ha : p (f a)) : 0 < n := by
  obtain ⟨S, rfl, hmem⟩ := h
  exact Finset.card_pos.mpr ⟨a, (hmem a).mpr ha⟩

theorem CountIs.exists_of_pos (h : CountIs p f n) (hn : 0 < n) : ∃ a, p (f a) := by
  obtain ⟨S, rfl, hmem⟩ := h
  obtain ⟨a, ha⟩ := Finset.card_pos.mp hn
  exact ⟨a, (hmem a).mp ha⟩

/-- With a count above one there is another one. -/
theorem CountIs.exists_ne (h : CountIs p f n) (hn : 1 < n) (a : α) : ∃ a', a' ≠ a ∧ p (f a') := by
  obtain ⟨S, rfl, hmem⟩ := h
  obtain ⟨a', ha', hne⟩ := Finset.exists_mem_ne hn a
  exact ⟨a', hne, (hmem a').mp ha'⟩

/-- A counter of the threads of a finite type is below their number while one of them is not in
the region. -/
theorem CountIs.lt_card [Fintype α] (h : CountIs p f n) (ha : ¬ p (f a)) : n < Fintype.card α := by
  obtain ⟨S, rfl, hmem⟩ := h
  exact Finset.card_lt_univ_of_notMem (fun hin => ha ((hmem a).mp hin))

theorem CountIs.eq_card [Fintype α] [DecidablePred fun a => p (f a)] (h : CountIs p f n) :
    n = (Finset.univ.filter fun a => p (f a)).card := by
  obtain ⟨S, rfl, hmem⟩ := h
  congr 1
  ext a
  rw [hmem, Finset.mem_filter, and_iff_right (Finset.mem_univ a)]

/-- Two counts of functions that are the same but at one thread. -/
theorem CountIs.add_ite [DecidableEq α] [DecidablePred p] {f' : α → β} {n' : Nat}
    (h : CountIs p f n) (h' : CountIs p f' n') (hsame : ∀ a', a' ≠ a → f' a' = f a') :
    n' + (if p (f a) then 1 else 0) = n + if p (f' a) then 1 else 0 := by
  obtain ⟨S, rfl, hmem⟩ := h
  obtain ⟨S', rfl, hmem'⟩ := h'
  have herase : S'.erase a = S.erase a := by
    ext a'
    rw [Finset.mem_erase, Finset.mem_erase]
    refine and_congr_right ?_
    intro hne
    rw [hmem, hmem', hsame a' hne]
  have hcard := congrArg Finset.card herase
  have hpos : ∀ T : Finset α, (T.erase a).card + (if a ∈ T then 1 else 0) = T.card := by
    intro T
    split
    · rename_i hin
      exact Finset.card_erase_add_one hin
    · rename_i hout
      rw [Finset.erase_eq_of_notMem hout, Nat.add_zero]
  have hS := hpos S
  have hS' := hpos S'
  simp only [hmem, hmem'] at hS hS'
  omega

section

variable [DecidableEq α]

/-- A thread that moves inside or outside of the region. -/
theorem CountIs.update_same (h : CountIs p f n) (hsame : p (f a) ↔ p b) :
    CountIs p (Function.update f a b) n := by
  obtain ⟨S, hcard, hmem⟩ := h
  refine ⟨S, hcard, fun a' => ?_⟩
  by_cases heq : a' = a
  · subst heq
    rw [Function.update_self, hmem, hsame]
  · rw [Function.update_of_ne heq, hmem]

/-- A thread enters the region. -/
theorem CountIs.update_enter (h : CountIs p f n) (hout : ¬ p (f a)) (hin : p b) :
    CountIs p (Function.update f a b) (n + 1) := by
  obtain ⟨S, hcard, hmem⟩ := h
  have ha : a ∉ S := fun ha => hout ((hmem a).mp ha)
  refine ⟨insert a S, by rw [Finset.card_insert_of_notMem ha, hcard], fun a' => ?_⟩
  by_cases heq : a' = a
  · subst heq
    rw [Function.update_self]
    exact iff_of_true (Finset.mem_insert_self a' S) hin
  · rw [Function.update_of_ne heq, Finset.mem_insert, hmem]
    exact or_iff_right heq

/-- A thread leaves the region. -/
theorem CountIs.update_leave (h : CountIs p f n) (hin : p (f a)) (hout : ¬ p b) :
    CountIs p (Function.update f a b) (n - 1) := by
  obtain ⟨S, hcard, hmem⟩ := h
  have ha : a ∈ S := (hmem a).mpr hin
  refine ⟨S.erase a, by rw [Finset.card_erase_of_mem ha, hcard], fun a' => ?_⟩
  by_cases heq : a' = a
  · subst heq
    rw [Function.update_self]
    exact iff_of_false (Finset.notMem_erase a' S) hout
  · rw [Function.update_of_ne heq, Finset.mem_erase, hmem]
    exact and_iff_right heq

end

end Kyron.Lib
