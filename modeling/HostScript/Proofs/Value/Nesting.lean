import Mathlib.Order.Interval.Finset.Nat
import HostScript.Value.Conversion

/-!
# How deep texts reach

An array that has a text at all nests less deep than its heap has cells: looking deeper finds no
other text (`textUpTo_eq_text`). For the arrays that have a text within so many levels grow more
with each level, until a level adds none; from then on no level does, since what has a text one
level down decides what has one. The heap has not more arrays to add than cells.
-/

namespace HostScript

/-! ## Answers for all of a list -/

section ForAll

variable {α β : Type} {f g : α → Option β}

theorem isSome_mapM_iff (l : List α) : (l.mapM f).isSome ↔ ∀ a ∈ l, (f a).isSome := by
  induction l with
  | nil => simp
  | cons a rest ih =>
    rw [List.mapM_cons, List.forall_mem_cons, ← ih]
    cases hf : f a with
    | none => simp
    | some b => cases rest.mapM f <;> simp

theorem mapM_congr {l : List α} (hfg : ∀ a ∈ l, f a = g a) : l.mapM f = l.mapM g := by
  induction l with
  | nil => rfl
  | cons a rest ih =>
    rw [List.mapM_cons, List.mapM_cons, hfg a (by simp), ih fun b hb => hfg b (by simp [hb])]

theorem mapM_eq_some_of_imp {l : List α} {bs : List β} (hl : l.mapM f = some bs)
    (hfg : ∀ a ∈ l, ∀ b, f a = some b → g a = some b) : l.mapM g = some bs := by
  have hsame : l.mapM g = l.mapM f := mapM_congr fun a ha => by
    have hsome := (isSome_mapM_iff l).1 (by rw [hl]; rfl) a ha
    obtain ⟨b, hb⟩ := Option.isSome_iff_exists.1 hsome
    rw [hb, hfg a ha b hb]
  rw [hsame, hl]

end ForAll

namespace Value

variable {h : Heap}

/-! ## One level more -/

/-- The text of an element of an array; nothing is shown for what is nullish. -/
def elementText (h : Heap) (depth : Nat) (element : Value) : Option String :=
  if element.isNullish then some "" else textUpTo h depth element

theorem textUpTo_array (h : Heap) (depth : Nat) (a : Addr) :
    (array a).textUpTo h (depth + 1) =
      ((h.array a).toList.mapM (elementText h depth)).map (",".intercalate ·) := rfl

/-- How deep one looks matters for arrays only. -/
theorem textUpTo_of_not_array {v : Value} (hv : ∀ a, v ≠ .array a) (depth other : Nat) :
    v.textUpTo h depth = v.textUpTo h other := by
  cases v with
  | array a => exact absurd rfl (hv a)
  | _ => cases depth <;> cases other <;> rfl

theorem textUpTo_succ_of_eq_some :
    ∀ (depth : Nat) (v : Value) (s : String), v.textUpTo h depth = some s →
      v.textUpTo h (depth + 1) = some s := by
  intro depth
  induction depth with
  | zero =>
    intro v s hs
    cases v with
    | array a => cases hs
    | _ => exact hs
  | succ depth ih =>
    intro v s hs
    cases v with
    | array a =>
      rw [textUpTo_array] at hs ⊢
      obtain ⟨texts, htexts, rfl⟩ := Option.map_eq_some_iff.1 hs
      -- Each element has the text that it had, since one deeper is enough for it too.
      rw [mapM_eq_some_of_imp htexts fun element _ t ht => ?_, Option.map_some]
      unfold elementText at ht ⊢
      split
      · next hnullish => rwa [if_pos hnullish] at ht
      · next hnullish => exact ih element t (by rwa [if_neg hnullish] at ht)
    | _ => exact hs

theorem textUpTo_of_le {depth depth' : Nat} (hdepth : depth ≤ depth') {v : Value} {s : String}
    (hs : v.textUpTo h depth = some s) : v.textUpTo h depth' = some s := by
  induction depth', hdepth using Nat.le_induction with
  | base => exact hs
  | succ depth' _ ih => exact textUpTo_succ_of_eq_some depth' v s ih

/-! ## The arrays with a text -/

section Arrays

open Classical Finset

variable (h) (held : Value → Prop)

/-- The arrays among some values that have a text within so many levels. -/
noncomputable def textArrays (depth : Nat) : Finset Addr :=
  (range h.size).filter fun a => held (.array a) ∧ ((array a).textUpTo h depth).isSome

variable {h held}

theorem mem_textArrays {depth : Nat} {a : Addr} :
    a ∈ textArrays h held depth ↔
      a < h.size ∧ held (.array a) ∧ ((array a).textUpTo h depth).isSome := by
  rw [textArrays, mem_filter, mem_range]

theorem textArrays_subset (depth : Nat) :
    textArrays h held depth ⊆ textArrays h held (depth + 1) := by
  intro a ha
  obtain ⟨hlt, hheld, hsome⟩ := mem_textArrays.1 ha
  obtain ⟨s, hs⟩ := Option.isSome_iff_exists.1 hsome
  exact mem_textArrays.2 ⟨hlt, hheld, by rw [textUpTo_succ_of_eq_some depth _ s hs]; rfl⟩

variable (hbound : ∀ a, held (.array a) → a < h.size)
  (helement : ∀ a v, held (.array a) → v ∈ h.array a → held v)

include hbound helement

/-- An array has a text one level further up if the arrays in it have one. -/
theorem mem_textArrays_succ {depth : Nat} {a : Addr} :
    a ∈ textArrays h held (depth + 1) ↔
      held (.array a) ∧ ∀ b, array b ∈ h.array a → b ∈ textArrays h held depth := by
  rw [mem_textArrays, textUpTo_array, Option.isSome_map, isSome_mapM_iff]
  constructor
  · rintro ⟨-, ha, hall⟩
    refine ⟨ha, fun b hb => mem_textArrays.2 ?_⟩
    have hb' : held (.array b) := helement a _ ha hb
    exact ⟨hbound b hb', hb', hall _ (Array.mem_toList_iff.2 hb)⟩
  · rintro ⟨ha, hall⟩
    refine ⟨hbound a ha, ha, fun v hv => ?_⟩
    unfold elementText
    cases v with
    | array b => exact (mem_textArrays.1 (hall b (Array.mem_toList_iff.1 hv))).2.2
    | _ => cases depth <;> rfl

theorem textArrays_eq_of_size_le {depth : Nat} (hdepth : h.size ≤ depth) :
    textArrays h held depth = textArrays h held h.size := by
  have hmono : Monotone fun n => (textArrays h held n).card :=
    monotone_nat_of_le_succ fun n => card_le_card (textArrays_subset n)
  have hcard : ∀ n, (textArrays h held n).card ≤ h.size := fun n =>
    (card_filter_le _ _).trans (card_range h.size).le
  have heq : ∀ {m n}, m ≤ n → (textArrays h held m).card = (textArrays h held n).card →
      textArrays h held m = textArrays h held n := fun {m n} hmn hsame =>
    eq_of_subset_of_card_le
      (monotone_nat_of_le_succ textArrays_subset hmn) hsame.ge
  -- A level that adds no array has no successor that does.
  have hstable : ∀ n, (textArrays h held n).card = (textArrays h held (n + 1)).card →
      (textArrays h held (n + 1)).card = (textArrays h held (n + 2)).card := fun n hn => by
    have hsame := heq (Nat.le_succ n) hn
    congr 1
    ext a
    rw [mem_textArrays_succ hbound helement, mem_textArrays_succ hbound helement, ← hsame]
  exact (heq hdepth (Nat.stabilises_of_monotone hmono hcard hstable hdepth).symm).symm

/-- Looking deeper than the heap is large finds no other text. -/
theorem textUpTo_eq_text {v : Value} (hv : held v) {depth : Nat} (hdepth : h.size ≤ depth) :
    v.textUpTo h depth = v.text h := by
  unfold text
  cases hs : v.textUpTo h h.size with
  | some s => exact textUpTo_of_le hdepth hs
  | none =>
    cases v with
    | array a =>
      rw [← Option.not_isSome_iff_eq_none] at hs ⊢
      intro hsome
      have ha : a ∈ textArrays h held depth := mem_textArrays.2 ⟨hbound a hv, hv, hsome⟩
      rw [textArrays_eq_of_size_le hbound helement hdepth] at ha
      exact hs (mem_textArrays.1 ha).2.2
    | _ =>
      rw [← hs]
      exact textUpTo_of_not_array (by simp) depth h.size

end Arrays

end Value

end HostScript
