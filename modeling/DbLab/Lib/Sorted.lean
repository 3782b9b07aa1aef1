import Mathlib.Tactic
import Mathlib.Data.List.Sort

/-!
# Lists sorted by a key

Ordered maps as lists whose elements are strictly increasing in a key: lookup, insertion over an
equal key, removal, and how each of them acts on a concatenation when the key falls into one of the
parts. `key : α → κ` reads the key of an element; an association list is the case `key = Prod.fst`.
-/

namespace DbLab

variable {α β κ : Type} [LinearOrder κ] {key : α → κ} {a b : α} {k : κ} {l l₁ l₂ : List α}

/-- The elements are strictly increasing in their key. -/
def SortedBy (key : α → κ) (l : List α) : Prop := l.Pairwise fun a b => key a < key b

/-- The element with a key. -/
def lookupBy (key : α → κ) (k : κ) (l : List α) : Option α := l.find? fun a => key a = k

/-- Put an element at its place, over one with an equal key. -/
def upsertBy (key : α → κ) (a : α) : List α → List α
  | [] => [a]
  | b :: l =>
    if key a < key b then a :: b :: l
    else if key a = key b then a :: l
    else b :: upsertBy key a l

/-- Remove the elements with a key. -/
def removeBy (key : α → κ) (k : κ) (l : List α) : List α := l.filter fun a => key a ≠ k

/-! ### Sorted lists -/

@[simp] theorem sortedBy_nil : SortedBy key [] := List.Pairwise.nil

@[simp] theorem sortedBy_cons :
    SortedBy key (a :: l) ↔ (∀ b ∈ l, key a < key b) ∧ SortedBy key l := List.pairwise_cons

theorem sortedBy_append :
    SortedBy key (l₁ ++ l₂) ↔
      SortedBy key l₁ ∧ SortedBy key l₂ ∧ ∀ a ∈ l₁, ∀ b ∈ l₂, key a < key b :=
  List.pairwise_append

theorem SortedBy.sublist (h : SortedBy key l₂) (hs : l₁.Sublist l₂) : SortedBy key l₁ :=
  List.Pairwise.sublist hs h

theorem sortedBy_map {f : β → α} {l : List β} :
    SortedBy key (l.map f) ↔ SortedBy (fun b => key (f b)) l :=
  List.pairwise_map

theorem sortedBy_iff_isChain : SortedBy key l ↔ (l.map key).IsChain (· < ·) := by
  rw [List.isChain_iff_pairwise, List.pairwise_map, SortedBy]

theorem SortedBy.eq_of_key_eq (h : SortedBy key l) (ha : a ∈ l) (hb : b ∈ l)
    (hk : key a = key b) : a = b := by
  induction l with
  | nil => cases ha
  | cons c l ih =>
    rw [sortedBy_cons] at h
    rcases List.mem_cons.1 ha with rfl | ha' <;> rcases List.mem_cons.1 hb with rfl | hb'
    · rfl
    · exact absurd hk (h.1 b hb').ne
    · exact absurd hk (h.1 a ha').ne'
    · exact ih h.2 ha' hb'

/-! ### Lookup -/

@[simp] theorem lookupBy_nil : lookupBy key k ([] : List α) = none := rfl

theorem lookupBy_cons : lookupBy key k (a :: l) = if key a = k then some a else lookupBy key k l := by
  unfold lookupBy
  rw [List.find?_cons]
  by_cases h : key a = k <;> simp [h]

theorem lookupBy_append :
    lookupBy key k (l₁ ++ l₂) = (lookupBy key k l₁).or (lookupBy key k l₂) := by
  unfold lookupBy
  exact List.find?_append

theorem lookupBy_eq_none : lookupBy key k l = none ↔ ∀ a ∈ l, key a ≠ k := by
  simp [lookupBy]

theorem lookupBy_eq_some (h : SortedBy key l) : lookupBy key k l = some a ↔ a ∈ l ∧ key a = k := by
  constructor
  · intro hf
    exact ⟨List.mem_of_find?_eq_some hf, by simpa using List.find?_some hf⟩
  · rintro ⟨ha, rfl⟩
    cases hf : lookupBy key (key a) l with
    | none => exact absurd rfl (lookupBy_eq_none.1 hf a ha)
    | some b =>
      have hb : key b = key a := by simpa using List.find?_some hf
      rw [h.eq_of_key_eq ha (List.mem_of_find?_eq_some hf) hb.symm]

theorem lookupBy_map {f : β → α} {l : List β} :
    lookupBy key k (l.map f) = (lookupBy (fun b => key (f b)) k l).map f := by
  unfold lookupBy
  rw [List.find?_map]
  rfl

/-- A lookup in a concatenation with smaller keys on the left. -/
theorem lookupBy_append_right (h : ∀ a ∈ l₁, key a ≠ k) :
    lookupBy key k (l₁ ++ l₂) = lookupBy key k l₂ := by
  rw [lookupBy_append, lookupBy_eq_none.2 h, Option.none_or]

theorem lookupBy_append_left (h : ∀ a ∈ l₂, key a ≠ k) :
    lookupBy key k (l₁ ++ l₂) = lookupBy key k l₁ := by
  rw [lookupBy_append, lookupBy_eq_none.2 h, Option.or_none]

/-! ### Insertion -/

theorem mem_upsertBy (h : SortedBy key l) :
    b ∈ upsertBy key a l ↔ b = a ∨ b ∈ l ∧ key b ≠ key a := by
  induction l with
  | nil => simp [upsertBy]
  | cons c l ih =>
    rw [sortedBy_cons] at h
    unfold upsertBy
    split_ifs with h1 h2
    · have hne : ∀ d ∈ c :: l, key d ≠ key a := by
        intro d hd
        rcases List.mem_cons.1 hd with rfl | hd
        · exact h1.ne'
        · exact (h1.trans (h.1 d hd)).ne'
      constructor
      · intro hb
        rcases List.mem_cons.1 hb with rfl | hb
        · exact .inl rfl
        · exact .inr ⟨hb, hne b hb⟩
      · rintro (rfl | ⟨hb, -⟩)
        · exact List.mem_cons_self
        · exact List.mem_cons_of_mem _ hb
    · rw [List.mem_cons, List.mem_cons]
      constructor
      · rintro (rfl | hb)
        · exact .inl rfl
        · exact .inr ⟨.inr hb, by rw [h2]; exact (h.1 b hb).ne'⟩
      · rintro (rfl | ⟨rfl | hb, hk⟩)
        · exact .inl rfl
        · exact absurd h2.symm hk
        · exact .inr hb
    · rw [List.mem_cons, List.mem_cons, ih h.2]
      constructor
      · rintro (rfl | rfl | ⟨hb, hk⟩)
        · exact .inr ⟨.inl rfl, fun hk => h2 hk.symm⟩
        · exact .inl rfl
        · exact .inr ⟨.inr hb, hk⟩
      · rintro (rfl | ⟨rfl | hb, hk⟩)
        · exact .inr (.inl rfl)
        · exact .inl rfl
        · exact .inr (.inr ⟨hb, hk⟩)

theorem SortedBy.upsertBy (h : SortedBy key l) : SortedBy key (upsertBy key a l) := by
  induction l with
  | nil => simp [DbLab.upsertBy]
  | cons c l ih =>
    have hc := sortedBy_cons.1 h
    unfold DbLab.upsertBy
    split_ifs with h1 h2
    · refine sortedBy_cons.2 ⟨fun d hd => ?_, h⟩
      rcases List.mem_cons.1 hd with rfl | hd
      · exact h1
      · exact h1.trans (hc.1 d hd)
    · exact sortedBy_cons.2 ⟨fun d hd => h2 ▸ hc.1 d hd, hc.2⟩
    · refine sortedBy_cons.2 ⟨fun d hd => ?_, ih hc.2⟩
      rcases (mem_upsertBy hc.2).1 hd with rfl | ⟨hd, -⟩
      · exact lt_of_le_of_ne (not_lt.1 h1) fun he => h2 he.symm
      · exact hc.1 d hd

theorem mem_of_mem_upsertBy (h : b ∈ upsertBy key a l) : b = a ∨ b ∈ l := by
  induction l with
  | nil => exact .inl (List.mem_singleton.1 h)
  | cons c l ih =>
    unfold upsertBy at h
    split_ifs at h with hlt heq
    · exact List.mem_cons.1 h
    · rcases List.mem_cons.1 h with rfl | h
      · exact .inl rfl
      · exact .inr (List.mem_cons_of_mem _ h)
    · rcases List.mem_cons.1 h with rfl | h
      · exact .inr List.mem_cons_self
      · exact (ih h).imp_right (List.mem_cons_of_mem _)

theorem upsertBy_ne_nil : upsertBy key a l ≠ [] := by
  cases l with
  | nil => simp [upsertBy]
  | cons c l => unfold upsertBy; split_ifs <;> simp

/-- Insertion behind smaller keys. -/
theorem upsertBy_append_right (h : ∀ b ∈ l₁, key b < key a) :
    upsertBy key a (l₁ ++ l₂) = l₁ ++ upsertBy key a l₂ := by
  induction l₁ with
  | nil => rfl
  | cons c l ih =>
    rw [List.forall_mem_cons] at h
    rw [List.cons_append, upsertBy, if_neg h.1.not_gt, if_neg h.1.ne', ih h.2, List.cons_append]

/-- Insertion in front of larger keys. -/
theorem upsertBy_append_left (h : ∀ b ∈ l₂, key a < key b) :
    upsertBy key a (l₁ ++ l₂) = upsertBy key a l₁ ++ l₂ := by
  induction l₁ with
  | nil =>
    cases l₂ with
    | nil => rfl
    | cons c l => simp [upsertBy, h c (by simp)]
  | cons c l ih =>
    rw [List.cons_append, upsertBy, upsertBy]
    split_ifs
    · rfl
    · rfl
    · rw [ih, List.cons_append]

theorem upsertBy_map {f : β → α} {l : List β} {x : β} :
    upsertBy key (f x) (l.map f) = (upsertBy (fun b => key (f b)) x l).map f := by
  induction l with
  | nil => rfl
  | cons c l ih =>
    rw [List.map_cons, upsertBy, upsertBy]
    split_ifs
    · rfl
    · rfl
    · rw [ih, List.map_cons]

theorem lookupBy_upsertBy (h : SortedBy key l) :
    lookupBy key k (upsertBy key a l) = if k = key a then some a else lookupBy key k l := by
  ext b
  rw [lookupBy_eq_some h.upsertBy, mem_upsertBy h]
  split_ifs with hk
  · subst hk
    constructor
    · rintro ⟨rfl | ⟨-, hne⟩, he⟩
      · rfl
      · exact absurd he hne
    · rintro ⟨⟩
      exact ⟨.inl rfl, rfl⟩
  · rw [lookupBy_eq_some h]
    constructor
    · rintro ⟨rfl | ⟨hb, -⟩, rfl⟩
      · exact absurd rfl hk
      · exact ⟨hb, rfl⟩
    · rintro ⟨hb, rfl⟩
      exact ⟨.inr ⟨hb, hk⟩, rfl⟩

/-! ### Removal -/

theorem mem_removeBy : b ∈ removeBy key k l ↔ b ∈ l ∧ key b ≠ k := by
  simp [removeBy]

theorem SortedBy.removeBy (h : SortedBy key l) : SortedBy key (removeBy key k l) :=
  h.sublist List.filter_sublist

@[simp] theorem removeBy_append : removeBy key k (l₁ ++ l₂) = removeBy key k l₁ ++ removeBy key k l₂ :=
  List.filter_append ..

theorem removeBy_of_forall_ne (h : ∀ a ∈ l, key a ≠ k) : removeBy key k l = l := by
  rw [removeBy, List.filter_eq_self]
  simpa using h

theorem removeBy_map {f : β → α} {l : List β} :
    removeBy key k (l.map f) = (removeBy (fun b => key (f b)) k l).map f := by
  unfold removeBy
  rw [List.filter_map]
  rfl

theorem lookupBy_removeBy (h : SortedBy key l) {k' : κ} :
    lookupBy key k' (removeBy key k l) = if k' = k then none else lookupBy key k' l := by
  split_ifs with hk
  · rw [lookupBy_eq_none]
    intro a ha
    rw [hk]
    exact (mem_removeBy.1 ha).2
  · ext b
    rw [lookupBy_eq_some h.removeBy, lookupBy_eq_some h, mem_removeBy]
    constructor
    · rintro ⟨⟨hb, -⟩, he⟩
      exact ⟨hb, he⟩
    · rintro ⟨hb, rfl⟩
      exact ⟨⟨hb, hk⟩, rfl⟩

/-- A sorted list is determined by its elements. -/
theorem SortedBy.ext (h₁ : SortedBy key l₁) (h₂ : SortedBy key l₂) (h : ∀ a, a ∈ l₁ ↔ a ∈ l₂) :
    l₁ = l₂ := by
  have hirrefl : Std.Irrefl fun a b : α => key a < key b := ⟨fun a => lt_irrefl (key a)⟩
  have hasymm : Std.Antisymm fun a b : α => key a < key b := ⟨fun a b hab hba => absurd hba hab.asymm⟩
  exact List.Pairwise.eq_of_mem_iff h₁ h₂ (fun {a} => h a)

theorem length_upsertBy (h : SortedBy key l) :
    (upsertBy key a l).length =
      if (lookupBy key (key a) l).isSome then l.length else l.length + 1 := by
  induction l with
  | nil => simp [upsertBy, lookupBy]
  | cons b l ih =>
    rw [SortedBy, List.pairwise_cons] at h
    rw [upsertBy, lookupBy_cons]
    by_cases hlt : key a < key b
    · have hnone : lookupBy key (key a) l = none :=
        lookupBy_eq_none.2 fun c hc => (hlt.trans (h.1 c hc)).ne'
      rw [if_pos hlt, if_neg hlt.ne', hnone]
      rfl
    · by_cases heq : key a = key b
      · rw [if_neg hlt, if_pos heq, if_pos heq.symm]
        rfl
      · rw [if_neg hlt, if_neg heq, if_neg (Ne.symm heq), List.length_cons, ih h.2]
        split_ifs
        · rfl
        · rfl

/-- An insertion adds the new element to a sum, and takes the replaced one away. -/
theorem sum_map_upsertBy (f : α → ℕ) (h : SortedBy key l) :
    ((upsertBy key a l).map f).sum + ((lookupBy key (key a) l).map f).getD 0 = (l.map f).sum + f a := by
  induction l with
  | nil => simp [upsertBy]
  | cons b l ih =>
    obtain ⟨hhead, htail⟩ := sortedBy_cons.1 h
    rw [upsertBy, lookupBy_cons]
    by_cases hlt : key a < key b
    · have hnone : lookupBy key (key a) l = none := lookupBy_eq_none.2 fun c hc => (hlt.trans (hhead c hc)).ne'
      rw [if_pos hlt, if_neg hlt.ne', hnone]
      simp [Nat.add_comm]
    · by_cases heq : key a = key b
      · rw [if_neg hlt, if_pos heq, if_pos heq.symm]
        simp [Nat.add_comm, Nat.add_left_comm]
      · have := ih htail
        rw [if_neg hlt, if_neg heq, if_neg (Ne.symm heq), List.map_cons, List.sum_cons, List.map_cons, List.sum_cons]
        omega

/-- The maximum that a fold collects. -/
theorem foldl_max {α : Type} (f : α → ℕ) (l : List α) (high : ℕ) :
    high ≤ l.foldl (fun high a => max high (f a)) high ∧
      (∀ a ∈ l, f a ≤ l.foldl (fun high a => max high (f a)) high) ∧
      ∀ bound, high < bound → (∀ a ∈ l, f a < bound) → l.foldl (fun high a => max high (f a)) high < bound := by
  induction l generalizing high with
  | nil => exact ⟨le_rfl, fun a ha => absurd ha List.not_mem_nil, fun _ hlt _ => hlt⟩
  | cons a l ih =>
    obtain ⟨hhigh, hmem, hlt⟩ := ih (max high (f a))
    rw [List.foldl_cons]
    refine ⟨(le_max_left _ _).trans hhigh, fun b hb => ?_, fun bound hb hall => ?_⟩
    · rcases List.mem_cons.1 hb with rfl | hb
      · exact (le_max_right _ _).trans hhigh
      · exact hmem b hb
    · exact hlt bound (max_lt hb (hall a List.mem_cons_self)) fun b hb => hall b (List.mem_cons_of_mem _ hb)

end DbLab
