import HostScript.Proofs.Value.Contents

/-!
# Structural equality

`structuralEquals` goes through two values part by part and takes what is identical as equal without
looking into it. On acyclic values it comes to an answer, and the answer is whether both have the
same content (`Value.decides_structuralEquals`). Its laws are those of `Value.SameContent`.

* `Heap.Reordered`: heaps that differ in the order of the keys of objects only.
* `structural_equality_laws`: symmetry, transitivity, the order of keys, strict equality, and the
  same content path by path.
-/

namespace HostScript

/-! ## Answers -/

/-- There is an answer, and it says whether something holds. -/
def Decides (answer : Option Bool) (p : Prop) : Prop :=
  ∃ yes, answer = some yes ∧ (yes = true ↔ p)

section Decides

variable {answer : Option Bool} {p q : Prop}

theorem decides_true (hp : p) : Decides (some true) p := ⟨true, rfl, iff_of_true rfl hp⟩

theorem decides_false (hp : ¬ p) : Decides (some false) p :=
  ⟨false, rfl, iff_of_false Bool.false_ne_true hp⟩

theorem decides_some (yes : Bool) : Decides (some yes) (yes = true) := ⟨yes, rfl, Iff.rfl⟩

theorem Decides.congr (hanswer : Decides answer p) (hpq : p ↔ q) : Decides answer q := by
  obtain ⟨yes, hyes, hp⟩ := hanswer
  exact ⟨yes, hyes, hp.trans hpq⟩

theorem Decides.eq_some_true_iff (hanswer : Decides answer p) : answer = some true ↔ p := by
  obtain ⟨yes, rfl, hp⟩ := hanswer
  rw [Option.some.injEq, hp]

theorem Decides.eq_some_false (hanswer : Decides answer p) (hp : ¬ p) : answer = some false := by
  obtain ⟨yes, rfl, hyes⟩ := hanswer
  rw [Bool.eq_false_iff.2 (mt hyes.1 hp)]

/-- Two answers to the same question are the same. -/
theorem Decides.unique {answer' : Option Bool} (hanswer : Decides answer p)
    (hanswer' : Decides answer' p) : answer = answer' := by
  obtain ⟨yes, rfl, hyes⟩ := hanswer
  obtain ⟨yes', rfl, hyes'⟩ := hanswer'
  rw [Bool.eq_iff_iff.2 (hyes.trans hyes'.symm)]

/-- A list of questions that all have an answer has one itself, the first no deciding it. -/
theorem decides_allM {α : Type} {f : α → Option Bool} {p : α → Prop} : ∀ {l : List α},
    (∀ x ∈ l, Decides (f x) (p x)) → Decides (l.allM f) (∀ x ∈ l, p x)
  | [], _ => decides_true fun _ hx => absurd hx List.not_mem_nil
  | x :: rest, hall => by
    obtain ⟨hx, hrest⟩ := List.forall_mem_cons.1 hall
    obtain ⟨yes, hyes, hp⟩ := hx
    rw [List.allM_cons, hyes, List.forall_mem_cons, ← hp]
    cases yes with
    | false => exact decides_false fun hboth => Bool.false_ne_true hboth.1
    | true => exact (decides_allM hrest).congr (and_iff_right rfl).symm

end Decides

namespace Value

variable {h : Heap} {a b : Value}

/-! ## What the comparison computes -/

/-- Without parts, only identity is left. -/
theorem structuralUpTo_of_not_isContainer (depth : Nat)
    (hleaf : a.isContainer = false ∨ b.isContainer = false) :
    structuralUpTo h depth a b = some (a.strictEquals b) := by
  cases depth <;> cases a <;> cases b <;> first | rfl | simp [isContainer] at hleaf

theorem decides_structuralUpTo_of_not_isContainer (depth : Nat)
    (hleaf : a.isContainer = false ∨ b.isContainer = false) :
    Decides (structuralUpTo h depth a b) (SameContent h a b) := by
  rw [structuralUpTo_of_not_isContainer depth hleaf]
  refine (decides_some _).congr ⟨.identical, fun hab => ?_⟩
  rcases hleaf with ha | hb
  · exact hab.strictEquals ha
  · exact (strictEquals_comm a b).trans (hab.symm.strictEquals hb)

/-- Elements side by side are the parts at one index. -/
theorem mem_zip_parts_iff {a b : Addr} {v w : Value} :
    (v, w) ∈ (h.array a).toList.zip (h.array b).toList ↔
      ∃ s, part? h s (.array a) = some v ∧ part? h s (.array b) = some w := by
  rw [List.mem_iff_getElem?]
  simp only [List.getElem?_zip_eq_some, Array.getElem?_toList]
  constructor
  · rintro ⟨i, hv, hw⟩
    exact ⟨.index i, hv, hw⟩
  · rintro ⟨⟨i⟩ | ⟨name⟩, hv, hw⟩
    · exact ⟨i, hv, hw⟩
    · cases hv

/-- Arrays of one size have the same content if their elements side by side have. -/
theorem sameContent_array_iff {a b : Addr} (hne : a ≠ b)
    (hsize : (h.array a).size = (h.array b).size) : SameContent h (.array a) (.array b) ↔
      ∀ pair ∈ (h.array a).toList.zip (h.array b).toList, SameContent h pair.1 pair.2 := by
  constructor
  · rintro (hab | ⟨-, hall⟩) pair hpair
    · exact absurd (beq_iff_eq.1 hab) hne
    · obtain ⟨s, hv, hw⟩ := mem_zip_parts_iff.1 hpair
      exact hall s _ _ hv hw
  · exact fun hall => .parts hsize fun s v w hv hw =>
      hall (v, w) (mem_zip_parts_iff.2 ⟨s, hv, hw⟩)

/-- Of two objects of one size it is enough that all entries of one have a counterpart. -/
theorem sameContent_object_iff {a b : Addr} (hne : a ≠ b)
    (hsize : (h.object a).size = (h.object b).size) : SameContent h (.object a) (.object b) ↔
      ∀ entry ∈ (h.object a).entries, ∃ w,
        (h.object b).get? entry.1 = some w ∧ SameContent h entry.2 w := by
  constructor
  · intro hab entry hmem
    have hv : part? h (.key entry.1) (.object a) = some entry.2 :=
      (h.object a).get?_eq_some_iff.2 hmem
    obtain ⟨w, hw⟩ := hab.matches_top.exists_part hv
    cases hab with
    | identical hab => exact absurd (beq_iff_eq.1 hab) hne
    | parts _ hall => exact ⟨w, hw, hall _ _ _ hv hw⟩
  · intro hall
    -- One size and one inclusion are enough for the keys to be the same.
    have hkeys : ∀ key ∈ (h.object a).keys, key ∈ (h.object b).keys := by
      intro key hkey
      obtain ⟨entry, hmem, rfl⟩ := List.mem_map.1 hkey
      obtain ⟨w, hw, -⟩ := hall entry hmem
      exact (h.object b).mem_keys_of_get? hw
    refine .parts (OrderedMap.keys_iff_of_size_eq hsize hkeys) ?_
    rintro (i | name) v w hv hw
    · cases hv
    · obtain ⟨u, hu, hvu⟩ := hall (name, v) ((h.object a).get?_eq_some_iff.1 hv)
      exact Option.some.inj (hw.symm.trans hu) ▸ hvu

section Containers

variable {depth : Nat} {a b : Addr}

/-- Arrays: identity, then sizes, then elements. -/
theorem decides_structuralUpTo_array (hparts : ∀ v w, Holds h (.array a) v →
      Decides (structuralUpTo h depth v w) (SameContent h v w)) :
    Decides (structuralUpTo h (depth + 1) (.array a) (.array b))
      (SameContent h (.array a) (.array b)) := by
  rw [structuralUpTo]
  split
  · next hab => exact decides_true (.identical (beq_iff_eq.2 hab))
  split
  · next hsize => exact decides_false fun hab => hsize hab.matches_top
  next hne hsize =>
  refine (decides_allM fun pair hpair => hparts pair.1 pair.2 ?_).congr
    (sameContent_array_iff hne (not_not.1 hsize)).symm
  obtain ⟨s, hv, -⟩ := mem_zip_parts_iff.1 hpair
  exact ⟨s, hv⟩

/-- Objects: identity, then sizes, then the value under each key of the first. -/
theorem decides_structuralUpTo_object (hparts : ∀ v w, Holds h (.object a) v →
      Decides (structuralUpTo h depth v w) (SameContent h v w)) :
    Decides (structuralUpTo h (depth + 1) (.object a) (.object b))
      (SameContent h (.object a) (.object b)) := by
  rw [structuralUpTo]
  split
  · next hab => exact decides_true (.identical (beq_iff_eq.2 hab))
  split
  · next hsize =>
    exact decides_false fun hab => hsize (OrderedMap.size_eq_of_keys hab.matches_top)
  next hne hsize =>
  refine (decides_allM fun entry hmem => ?_).congr
    (sameContent_object_iff hne (not_not.1 hsize)).symm
  have hholds : Holds h (.object a) entry.2 :=
    ⟨.key entry.1, (h.object a).get?_eq_some_iff.2 hmem⟩
  -- A key that the second object lacks decides against it.
  cases hother : (h.object b).get? entry.1 with
  | none => exact decides_false fun ⟨_, hw, _⟩ => nomatch hw
  | some other =>
    refine (hparts entry.2 other hholds).congr ⟨fun hab => ⟨other, rfl, hab⟩, ?_⟩
    rintro ⟨w, hw, hab⟩
    exact Option.some.inj hw ▸ hab

end Containers

/-- A comparison that looks deeper than the ways into its first operand reach comes to an answer. -/
theorem decides_structuralUpTo {steps depth : Nat} (ha : EndsWithin (Holds h) steps a)
    (hdepth : steps < depth) (b : Value) :
    Decides (structuralUpTo h depth a b) (SameContent h a b) := by
  induction steps using Nat.strong_induction_on generalizing a b depth with
  | _ steps ih =>
    obtain ⟨depth, rfl⟩ := Nat.exists_eq_add_one_of_ne_zero (Nat.ne_zero_of_lt hdepth)
    -- Parts end in fewer steps, so a smaller depth is enough for them.
    have hparts : ∀ v w, Holds h a v →
        Decides (structuralUpTo h depth v w) (SameContent h v w) := by
      intro v w hv
      obtain ⟨fewer, hfewer, hends⟩ := ha.step hv
      exact ih fewer hfewer hends (hfewer.trans_le (Nat.le_of_lt_succ hdepth)) w
    cases a with
    | array a =>
      cases b with
      | array b => exact decides_structuralUpTo_array hparts
      | object b => exact decides_false fun hab => Bool.false_ne_true hab.matches_top
      | _ => exact decides_structuralUpTo_of_not_isContainer _ (.inr rfl)
    | object a =>
      cases b with
      | array b => exact decides_false fun hab => Bool.false_ne_true hab.matches_top
      | object b => exact decides_structuralUpTo_object hparts
      | _ => exact decides_structuralUpTo_of_not_isContainer _ (.inr rfl)
    | _ => exact decides_structuralUpTo_of_not_isContainer _ (.inl rfl)

/-- The comparison of an acyclic value with any other one is whether they have the same content. -/
theorem decides_structuralEquals (ha : a.Acyclic h) (b : Value) :
    Decides (structuralEquals h a b) (SameContent h a b) := by
  obtain ⟨steps, hsteps, hends⟩ := ha.exists_endsWithin
  exact decides_structuralUpTo hends
    (Nat.lt_succ_of_le (hsteps.trans (Nat.le_mul_self h.size))) b

/-- What is identical is equal at once. Nothing is looked into, so cycles do not matter. -/
theorem structuralEquals_of_strictEquals (hab : a.strictEquals b = true) :
    structuralEquals h a b = some true := by
  cases ha : a.isContainer with
  | false =>
    rw [structuralEquals, structuralUpTo_of_not_isContainer _ (.inl ha), hab]
  | true =>
    cases a with
    | array a | object a =>
      obtain rfl := eq_of_strictEquals (by rintro _ ⟨⟩) hab
      rw [structuralEquals, structuralUpTo, if_pos rfl]
    | _ => cases ha

end Value

/-! ## The order of keys -/

/-- Heaps with the same arrays, and with the same objects but for the order of their keys. -/
structure Heap.Reordered (h h' : Heap) : Prop where
  array : ∀ a, h.array a = h'.array a
  object : ∀ a, (h.object a).entries.Perm (h'.object a).entries

namespace Heap.Reordered

variable {h h' : Heap} {a b : Value}

theorem symm (hre : h.Reordered h') : h'.Reordered h where
  array a := (hre.array a).symm
  object a := (hre.object a).symm

/-- Parts are found by key, so their order does not matter. -/
theorem part? (hre : h.Reordered h') (s : Selector) (v : Value) :
    Value.part? h s v = Value.part? h' s v := by
  cases v with
  | array a =>
    cases s with
    | index i => rw [Value.part?, Value.part?, hre.array a]
    | key name => rfl
  | object a =>
    cases s with
    | index i => rfl
    | key name => exact OrderedMap.get?_of_perm (hre.object a) name
  | _ => cases s <;> rfl

theorem holds (hre : h.Reordered h') : Value.Holds h = Value.Holds h' := by
  funext v w
  simp only [Value.Holds, hre.part?]

theorem acyclic (hre : h.Reordered h') (ha : a.Acyclic h) : a.Acyclic h' := by
  rwa [Value.Acyclic, ← hre.holds]

/-- Sizes and keys are the same in both heaps. -/
theorem matches_top (hre : h.Reordered h') (hab : Value.Matches h a b) : Value.Matches h' a b := by
  cases a with
  | array a =>
    obtain ⟨b, rfl, hsize⟩ := hab.exists_of_array
    rwa [hre.array, hre.array b] at hsize
  | object a =>
    obtain ⟨b, rfl, hkeys⟩ := hab.exists_of_object
    intro key
    have hmem : ∀ a, key ∈ (h.object a).keys ↔ key ∈ (h'.object a).keys :=
      fun a => ((hre.object a).map Prod.fst).mem_iff
    exact (hmem a).symm.trans ((hkeys key).trans (hmem b))
  | _ => exact hab

/-- The same content is the same in a heap with other orders of keys. By induction on the
content. -/
theorem sameContent (hre : h.Reordered h') (hab : Value.SameContent h a b) :
    Value.SameContent h' a b := by
  induction hab with
  | identical hab => exact .identical hab
  | parts hab _ ih =>
    refine .parts (hre.matches_top hab) fun s v w hv hw => ih s v w ?_ ?_
    · rwa [hre.part?]
    · rwa [hre.part?]

end Heap.Reordered

/-- Structural equality of acyclic values comes to an answer. It is symmetric and transitive, does
not depend on the order of keys, and holds of what is strictly equal. Where one value is no array
and no object it is strict equality. Each value is equal to itself but not-a-number. Two values that
share no array and no object are equal if along every path they have the same shape and strictly
equal leaves; so not-a-number anywhere makes them unequal. -/
theorem structural_equality_laws {h : Heap} {a b : Value} (ha : a.Acyclic h) (hb : b.Acyclic h) :
    (∃ equal, Value.structuralEquals h a b = some equal) ∧
      Value.structuralEquals h a b = Value.structuralEquals h b a ∧
      (∀ c, Value.structuralEquals h a b = some true → Value.structuralEquals h b c = some true →
        Value.structuralEquals h a c = some true) ∧
      (∀ h', h.Reordered h' → Value.structuralEquals h' a b = Value.structuralEquals h a b) ∧
      (a.strictEquals b = true → Value.structuralEquals h a b = some true) ∧
      (a.isContainer = false ∨ b.isContainer = false →
        Value.structuralEquals h a b = some (a.strictEquals b)) ∧
      (Value.structuralEquals h a a = some true ↔ ∀ n, a = .number n → n.isNaN = false) ∧
      (Value.Unshared h a b →
        (Value.structuralEquals h a b = some true ↔ ∀ path v w,
          Value.partAt? h path a = some v → Value.partAt? h path b = some w →
            Value.Matches h v w) ∧
        ∀ path n, n.isNaN = true →
          Value.partAt? h path a = some (.number n) ∨ Value.partAt? h path b = some (.number n) →
            Value.structuralEquals h a b = some false) := by
  have hab := Value.decides_structuralEquals ha b
  have hba := Value.decides_structuralEquals hb a
  refine ⟨?_, ?_, ?_, ?_, Value.structuralEquals_of_strictEquals,
    Value.structuralUpTo_of_not_isContainer _, ?_, fun hunshared => ⟨?_, ?_⟩⟩
  · obtain ⟨equal, hequal, -⟩ := hab
    exact ⟨equal, hequal⟩
  · exact hab.unique (hba.congr ⟨.symm, .symm⟩)
  · intro c hfirst hsecond
    rw [hab.eq_some_true_iff] at hfirst
    rw [(Value.decides_structuralEquals hb c).eq_some_true_iff] at hsecond
    exact (Value.decides_structuralEquals ha c).eq_some_true_iff.2 (hfirst.trans hsecond)
  · intro h' hre
    exact (Value.decides_structuralEquals (hre.acyclic ha) b).unique
      (hab.congr ⟨hre.sameContent, hre.symm.sameContent⟩)
  · exact (Value.decides_structuralEquals ha a).eq_some_true_iff.trans Value.SameContent.self_iff
  · rw [hab.eq_some_true_iff]
    constructor
    · intro hsame path v w hv hw
      obtain ⟨u, hu, hvu⟩ := hsame.exists_partAt hunshared path v hv
      exact Option.some.inj (hu.symm.trans hw) ▸ hvu
    · obtain ⟨steps, -, hends⟩ := ha.exists_endsWithin
      exact Value.sameContent_of_partAt hends
  -- A NaN matches nothing, so a path that ends in one on either side tells the values apart.
  · intro path n hn hleaf
    refine hab.eq_some_false fun hsame => ?_
    have hmatch : ∃ w, Value.Matches h (.number n) w := by
      rcases hleaf with hv | hv
      · obtain ⟨w, -, hvw⟩ := hsame.exists_partAt hunshared path _ hv
        exact ⟨w, hvw⟩
      · obtain ⟨w, -, hvw⟩ := hsame.symm.exists_partAt hunshared.symm path _ hv
        exact ⟨w, hvw⟩
    obtain ⟨w, hvw⟩ := hmatch
    have hself : (Value.number n).strictEquals (.number n) = true :=
      Value.strictEquals_trans hvw ((Value.strictEquals_comm _ _).trans hvw)
    exact Bool.false_ne_true ((Value.strictEquals_self_iff.1 hself n rfl).symm.trans hn)

/-- A heap with two arrays that hold not-a-number each. -/
def twoArrays : Heap := ⟨#[.array #[.number Number.nan], .array #[.number Number.nan]]⟩

/-- Both are equal to themselves, but not to each other. -/
theorem structuralEquals_of_twoArrays :
    Value.structuralEquals twoArrays (.array 0) (.array 0) = some true ∧
      Value.structuralEquals twoArrays (.array 0) (.array 1) = some false ∧
      Value.structuralEquals twoArrays (.array 1) (.array 0) = some false := by
  have hacyclic (v : Value) : v.Acyclic twoArrays := Value.acyclic_of_older (by decide) v
  have hholds (a : Addr) (ha : a < 2) (v : Value)
      (hv : Relation.ReflTransGen (Value.Holds twoArrays) (.array a) v) :
      v = .array a ∨ v.isContainer = false := by
    have helements : twoArrays.array a = #[.number Number.nan] :=
      match a, ha with
      | 0, _ => rfl
      | 1, _ => rfl
    rcases hv.cases_head with rfl | ⟨w, hw, hwv⟩
    · exact .inl rfl
    · rw [Value.holds_array_iff, helements, Array.mem_singleton] at hw
      subst hw
      rcases hwv.cases_head with rfl | ⟨u, hu, -⟩
      · exact .inr rfl
      · cases Value.isContainer_of_holds hu
  -- All that both arrays hold is a leaf.
  have hunshared : Value.Unshared twoArrays (.array 0) (.array 1) := by
    intro v hfirst hsecond
    rcases hholds 0 (by decide) v hfirst with rfl | hleaf
    · rcases hholds 1 (by decide) _ hsecond with h | h
      · cases h
      · exact h
    · exact hleaf
  obtain ⟨-, hsymm, -, -, -, -, hself, hparts⟩ :=
    structural_equality_laws (hacyclic (.array 0)) (hacyclic (.array 1))
  have hnan := (hparts hunshared).2 [.index 0] Number.nan rfl (.inl rfl)
  exact ⟨hself.2 (by rintro _ ⟨⟩), hnan, hsymm.symm.trans hnan⟩

end HostScript
