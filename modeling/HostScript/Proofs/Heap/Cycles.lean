import Mathlib.Data.Finset.Card
import Mathlib.Logic.Relation

/-!
# Ways that end

A relation leads from places on to others. If it leads on from finitely many places only, then all
ways from a place end unless one of them comes to a cycle; and none has more steps than there are
places to lead on from.

* `EndsWithin.not_leadsToCycle`, `endsWithin_card`: both directions.
-/

namespace HostScript

open Relation

variable {α : Type} {r : α → α → Prop}

/-- Every way from a place ends after so many steps at most. -/
def EndsWithin (r : α → α → Prop) : Nat → α → Prop
  | 0, a => ∀ b, ¬ r a b
  | steps + 1, a => ∀ b, r a b → EndsWithin r steps b

/-- A way from a place comes to a cycle. -/
def LeadsToCycle (r : α → α → Prop) (a : α) : Prop := ∃ b, ReflTransGen r a b ∧ TransGen r b b

/-- A place that leads on to a cycle leads to it. -/
theorem LeadsToCycle.head {a b : α} (hab : r a b) (hb : LeadsToCycle r b) : LeadsToCycle r a := by
  obtain ⟨c, hbc, hc⟩ := hb
  exact ⟨c, .head hab hbc, hc⟩

namespace EndsWithin

variable {steps : Nat} {a b : α}

/-- A step takes at least one from what is left. -/
theorem step (ha : EndsWithin r steps a) (hab : r a b) : ∃ fewer < steps, EndsWithin r fewer b := by
  cases steps with
  | zero => exact absurd hab (ha b)
  | succ fewer => exact ⟨fewer, Nat.lt_succ_self _, ha b hab⟩

/-- Every way uses up some of the steps that are left. -/
theorem of_transGen (ha : EndsWithin r steps a) (hab : TransGen r a b) :
    ∃ fewer < steps, EndsWithin r fewer b := by
  induction hab with
  | single hab => exact ha.step hab
  | tail _ hbc ih =>
    obtain ⟨fewer, hfewer, hb⟩ := ih
    obtain ⟨least, hleast, hc⟩ := hb.step hbc
    exact ⟨least, hleast.trans hfewer, hc⟩

/-- A cycle could be gone round again and again. -/
theorem not_cycle (ha : EndsWithin r steps a) : ¬ TransGen r a a := by
  intro hcycle
  induction steps using Nat.strong_induction_on with
  | _ steps ih =>
    obtain ⟨fewer, hfewer, ha⟩ := ha.of_transGen hcycle
    exact ih fewer hfewer ha

/-- Where all ways end there is no cycle, which could be gone round for ever. -/
theorem not_leadsToCycle (ha : EndsWithin r steps a) : ¬ LeadsToCycle r a := by
  rintro ⟨b, hab, hcycle⟩
  rcases reflTransGen_iff_eq_or_transGen.1 hab with rfl | hab
  · exact ha.not_cycle hcycle
  · obtain ⟨_, -, hb⟩ := ha.of_transGen hab
    exact hb.not_cycle hcycle

end EndsWithin

/-- The places to lead on from that a way comes to get fewer with each step: without a cycle no way
comes back to where it has been. -/
theorem endsWithin_card {places : Finset α} (hplaces : ∀ a b, r a b → a ∈ places) {a : α}
    (ha : ¬ LeadsToCycle r a) : EndsWithin r places.card a := by
  classical
  suffices ∀ (steps : Nat) (a : α), ¬ LeadsToCycle r a →
      (places.filter (ReflTransGen r a)).card ≤ steps → EndsWithin r steps a from
    this places.card a ha (Finset.card_filter_le ..)
  intro steps
  induction steps with
  | zero =>
    intro a _ hcard b hab
    have hmem : a ∈ places.filter (ReflTransGen r a) :=
      Finset.mem_filter.2 ⟨hplaces a b hab, .refl⟩
    rw [Finset.card_eq_zero.1 (Nat.le_zero.1 hcard)] at hmem
    exact absurd hmem (Finset.notMem_empty a)
  | succ steps ih =>
    intro a ha hcard b hab
    -- The place itself is out of reach from now on, since there is no cycle.
    refine ih b (fun hb => ha (.head hab hb)) (Nat.le_of_lt_succ (lt_of_lt_of_le ?_ hcard))
    refine Finset.card_lt_card (Finset.ssubset_iff_of_subset ?_ |>.2 ⟨a, ?_, ?_⟩)
    · exact Finset.monotone_filter_right _ fun c _ hbc => .head hab hbc
    · exact Finset.mem_filter.2 ⟨hplaces a b hab, .refl⟩
    · intro hmem
      exact ha ⟨a, .refl, .head' hab (Finset.mem_filter.1 hmem).2⟩

end HostScript
