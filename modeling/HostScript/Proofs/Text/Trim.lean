import Mathlib
import HostScript.Text.Blank

/-!
# Texts without blanks at the ends

* `trimBlanks_eq_iff`: what is left of a text, told without a search.
-/

namespace HostScript.Text

/-- No blank stands at either end. -/
structure IsTrimmed (cs : List Char) : Prop where
  front : ∀ c ∈ cs.head?, isBlank c = false
  back : ∀ c ∈ cs.getLast?, isBlank c = false

theorem isTrimmed_of_forall {cs : List Char} (h : ∀ c ∈ cs, isBlank c = false) : IsTrimmed cs :=
  ⟨fun c hc => h c (List.mem_of_mem_head? hc), fun c hc => h c (List.mem_of_mem_getLast? hc)⟩

theorem isTrimmed_reverse {cs : List Char} : IsTrimmed cs.reverse ↔ IsTrimmed cs := by
  constructor
  · rintro ⟨hfront, hback⟩
    rw [List.head?_reverse] at hfront
    rw [List.getLast?_reverse] at hback
    exact ⟨hback, hfront⟩
  · rintro ⟨hfront, hback⟩
    exact ⟨by rwa [List.head?_reverse], by rwa [List.getLast?_reverse]⟩

/-- Blanks at the front go, up to the first character that is none. -/
theorem dropWhile_isBlank_append {front cs : List Char} (hfront : ∀ c ∈ front, isBlank c = true)
    (hcs : ∀ c ∈ cs.head?, isBlank c = false) : (front ++ cs).dropWhile isBlank = cs := by
  rw [List.dropWhile_append_of_pos hfront]
  cases cs with
  | nil => rfl
  | cons c cs => rw [List.dropWhile_cons_of_neg (by rw [hcs c rfl]; decide)]

theorem head?_dropWhile_isBlank (cs : List Char) :
    ∀ c ∈ (cs.dropWhile isBlank).head?, isBlank c = false := by
  intro c hc
  have hhead := List.head?_dropWhile_not isBlank cs
  rw [Option.mem_def.1 hc] at hhead
  simpa using hhead

/-- What is left lies between blanks, and has none at its ends. -/
theorem trimBlanks_eq_iff {cs t : List Char} :
    trimBlanks cs = t ↔ IsTrimmed t ∧ ∃ front back, cs = front ++ t ++ back ∧
      (∀ c ∈ front, isBlank c = true) ∧ (∀ c ∈ back, isBlank c = true) := by
  constructor
  · rintro rfl
    set rest := (cs.dropWhile isBlank).reverse with hrest
    have hback : trimBlanks cs ++ (rest.takeWhile isBlank).reverse = cs.dropWhile isBlank := by
      rw [trimBlanks, ← List.reverse_append, List.takeWhile_append_dropWhile, hrest,
        List.reverse_reverse]
    have hblank : ∀ c ∈ (rest.takeWhile isBlank).reverse, isBlank c = true := fun c hc =>
      List.mem_takeWhile_imp (List.mem_reverse.1 hc)
    refine ⟨⟨fun c hc => ?_, fun c hc => ?_⟩, cs.takeWhile isBlank, _, ?_,
      fun c hc => List.mem_takeWhile_imp hc, hblank⟩
    · refine head?_dropWhile_isBlank cs c ?_
      rw [← hback, List.head?_append, Option.mem_def.1 hc, Option.some_or]
      rfl
    · rw [trimBlanks, List.getLast?_reverse] at hc
      exact head?_dropWhile_isBlank _ c hc
    · rw [List.append_assoc, hback, List.takeWhile_append_dropWhile]
  · rintro ⟨htrimmed, front, back, rfl, hfront, hback⟩
    -- If nothing is left, all was blank, and it does not matter which end the blanks belonged to.
    rcases eq_or_ne t [] with rfl | ht
    · have hall : ∀ c ∈ front ++ [] ++ back, isBlank c = true := by
        rw [List.append_nil]
        exact List.forall_mem_append.2 ⟨hfront, hback⟩
      rw [trimBlanks, List.dropWhile_eq_nil_iff.2 hall]
      rfl
    · have hhead : ∀ c ∈ (t ++ back).head?, isBlank c = false := by
        rw [List.head?_append_of_ne_nil _ ht]
        exact htrimmed.front
      rw [trimBlanks, List.append_assoc, dropWhile_isBlank_append hfront hhead,
        List.reverse_append, dropWhile_isBlank_append (fun c hc => hback c (List.mem_reverse.1 hc))
          (isTrimmed_reverse.2 htrimmed).front, List.reverse_reverse]

theorem trimBlanks_eq_self {cs : List Char} (h : ∀ c ∈ cs, isBlank c = false) :
    trimBlanks cs = cs :=
  trimBlanks_eq_iff.2 ⟨isTrimmed_of_forall h, [], [], (List.append_nil cs).symm,
    fun _ hc => absurd hc List.not_mem_nil, fun _ hc => absurd hc List.not_mem_nil⟩

/-- A text that begins with no blank keeps its first character. -/
theorem exists_trimBlanks_cons {c : Char} (hc : isBlank c = false) (cs : List Char) :
    ∃ rest, trimBlanks (c :: cs) = c :: rest := by
  obtain ⟨-, front, back, htext, hfront, hback⟩ :=
    trimBlanks_eq_iff.1 (rfl : trimBlanks (c :: cs) = _)
  generalize trimBlanks (c :: cs) = t at htext
  have hnot (h : isBlank c = true) : False := by rw [hc] at h; cases h
  rw [List.append_assoc] at htext
  cases front with
  | cons b front =>
    obtain rfl := (List.cons.inj htext).1
    exact (hnot (hfront c List.mem_cons_self)).elim
  | nil =>
    cases t with
    | nil =>
      obtain rfl : c :: cs = back := htext
      exact (hnot (hback c List.mem_cons_self)).elim
    | cons b t =>
      obtain rfl := (List.cons.inj htext).1
      exact ⟨t, rfl⟩

end HostScript.Text
