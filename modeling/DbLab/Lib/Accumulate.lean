import DbLab.Lib.Checked

/-!
# Accumulation and nearest ranks

A step that adds an amount to a total, for an argument that it accepts or refuses without regard to the state. Over
a list such steps add the sum of the amounts, in whatever order the list is. The element of a sorted list at the
rank of a percentile is the smallest one that as many elements do not exceed.
-/

namespace DbLab

/-! ### Accumulation -/

section Accumulate

variable {α β σ ε M : Type} [AddCommMonoid M] {step : α → σ → Except ε σ} {total : σ → M} {amount : α → M}
  {s s' : σ} {l l' : List α}

/-- The steps over a list, in order. -/
def foldSteps (step : α → σ → Except ε σ) : List α → σ → Except ε σ
  | [], s => .ok s
  | a :: l, s => step a s >>= foldSteps step l

/-- The step adds its amount to the total, and the state has no part in what it accepts. -/
structure Accumulates (step : α → σ → Except ε σ) (total : σ → M) (amount : α → M) : Prop where
  adds : ∀ {a s s'}, step a s = .ok s' → total s' = total s + amount a
  accepts : ∀ {a s s'}, step a s = .ok s' → ∀ t, ∃ t', step a t = .ok t'

theorem foldSteps_cons {a : α} : foldSteps step (a :: l) s = .ok s' ↔
    ∃ s₁, step a s = .ok s₁ ∧ foldSteps step l s₁ = .ok s' := by
  rw [foldSteps, Checked.bind_eq_ok]

/-- What every step keeps. -/
theorem foldSteps_induction {P : σ → Prop} (hstep : ∀ a s s', step a s = .ok s' → P s → P s')
    (h : foldSteps step l s = .ok s') (hs : P s) : P s' := by
  induction l generalizing s with
  | nil =>
    obtain rfl := Except.ok.inj h
    exact hs
  | cons a l ih =>
    obtain ⟨s₁, ha, hl⟩ := foldSteps_cons.1 h
    exact ih hl (hstep a s s₁ ha hs)

namespace Accumulates

theorem skip : Accumulates (fun (_ : α) (s : σ) => (.ok s : Except ε σ)) total fun _ => 0 where
  adds h := by rw [← Except.ok.inj h, add_zero]
  accepts _ t := ⟨t, rfl⟩

theorem andThen {step' : α → σ → Except ε σ} {amount' : α → M} (h : Accumulates step total amount)
    (h' : Accumulates step' total amount') :
    Accumulates (fun a s => step a s >>= step' a) total fun a => amount a + amount' a where
  adds hrun := by
    obtain ⟨s₁, h₁, h₂⟩ := Checked.bind_eq_ok.1 hrun
    rw [h'.adds h₂, h.adds h₁, add_assoc]
  accepts hrun t := by
    obtain ⟨s₁, h₁, h₂⟩ := Checked.bind_eq_ok.1 hrun
    obtain ⟨t₁, ht₁⟩ := h.accepts h₁ t
    obtain ⟨t₂, ht₂⟩ := h'.accepts h₂ t₁
    exact ⟨t₂, Checked.bind_eq_ok.2 ⟨t₁, ht₁, ht₂⟩⟩

/-- A step behind a reading of its argument. -/
theorem reads {step : β → α → σ → Except ε σ} {parse : α → Except ε β} (amount' : β → α → M)
    (h : ∀ b, Accumulates (step b) total (amount' b)) (hamount : ∀ a b, parse a = .ok b → amount a = amount' b a) :
    Accumulates (fun a s => parse a >>= fun b => step b a s) total amount where
  adds {a s s'} hrun := by
    obtain ⟨b, hb, hstep⟩ := Checked.bind_eq_ok.1 hrun
    rw [(h b).adds hstep, hamount a b hb]
  accepts hrun t := by
    obtain ⟨b, hb, hstep⟩ := Checked.bind_eq_ok.1 hrun
    obtain ⟨t', ht⟩ := (h b).accepts hstep t
    exact ⟨t', Checked.bind_eq_ok.2 ⟨b, hb, ht⟩⟩

theorem comap {f : β → α} (h : Accumulates step total amount) :
    Accumulates (fun b s => step (f b) s) total fun b => amount (f b) where
  adds hrun := h.adds hrun
  accepts hrun t := h.accepts hrun t

/-- **A list of steps** adds the sum of the amounts. -/
theorem fold (h : Accumulates step total amount) :
    Accumulates (foldSteps step) total fun l => (l.map amount).sum where
  adds {l s s'} hrun := by
    induction l generalizing s with
    | nil => rw [← Except.ok.inj hrun, List.map_nil, List.sum_nil, add_zero]
    | cons a l ih =>
      obtain ⟨s₁, ha, hl⟩ := foldSteps_cons.1 hrun
      rw [ih hl, h.adds ha, List.map_cons, List.sum_cons, add_assoc]
  accepts {l s s'} hrun t := by
    induction l generalizing s t with
    | nil => exact ⟨t, rfl⟩
    | cons a l ih =>
      obtain ⟨s₁, ha, hl⟩ := foldSteps_cons.1 hrun
      obtain ⟨t₁, ht₁⟩ := h.accepts ha t
      obtain ⟨t', ht'⟩ := ih hl t₁
      exact ⟨t', foldSteps_cons.2 ⟨t₁, ht₁, ht'⟩⟩

theorem foldSteps_isOk (h : Accumulates step total amount) :
    (∃ s', foldSteps step l s = .ok s') ↔ ∀ a ∈ l, ∃ t t', step a t = .ok t' := by
  constructor
  · rintro ⟨s', hrun⟩
    induction l generalizing s with
    | nil => simp
    | cons a l ih =>
      obtain ⟨s₁, ha, hl⟩ := foldSteps_cons.1 hrun
      exact List.forall_mem_cons.2 ⟨⟨s, s₁, ha⟩, ih hl⟩
  · intro hall
    induction l generalizing s with
    | nil => exact ⟨s, rfl⟩
    | cons a l ih =>
      obtain ⟨⟨t, t', ha⟩, hl⟩ := List.forall_mem_cons.1 hall
      obtain ⟨s₁, hs₁⟩ := h.accepts ha s
      obtain ⟨s', hs'⟩ := ih hl (s := s₁)
      exact ⟨s', foldSteps_cons.2 ⟨s₁, hs₁, hs'⟩⟩

/-- **The order of the steps** has no part in the total. -/
theorem perm (h : Accumulates step total amount) (hperm : l.Perm l') (hrun : foldSteps step l s = .ok s') :
    ∃ s'', foldSteps step l' s = .ok s'' ∧ total s'' = total s' := by
  obtain ⟨s'', hrun'⟩ : ∃ s'', foldSteps step l' s = .ok s'' :=
    h.foldSteps_isOk.2 fun a ha => h.foldSteps_isOk.1 ⟨s', hrun⟩ a (hperm.mem_iff.2 ha)
  refine ⟨s'', hrun', ?_⟩
  rw [h.fold.adds hrun', h.fold.adds hrun, (hperm.map amount).sum_eq]

end Accumulates

end Accumulate

/-! ### Nearest ranks -/

section NearestRank

variable {α : Type} [LinearOrder α] {l : List α} {p i : ℕ}

/-- The smallest sample that at least `p` percent of the samples do not exceed. -/
structure IsNearestRank (samples : Multiset α) (p : ℕ) (x : α) : Prop where
  mem : x ∈ samples
  enough : p * samples.card ≤ 100 * samples.countP (· ≤ x)
  least : ∀ y ∈ samples, p * samples.card ≤ 100 * samples.countP (· ≤ y) → x ≤ y

theorem lt_countP_le (hsorted : l.Pairwise (· ≤ ·)) (hi : i < l.length) : i < l.countP (· ≤ l[i]) := by
  have hall : ∀ x ∈ l.take (i + 1), x ≤ l[i] := by
    intro x hx
    obtain ⟨j, hj, rfl⟩ := List.mem_take_iff_getElem.1 hx
    rcases Nat.lt_or_ge j i with hlt | hge
    · exact List.pairwise_iff_getElem.1 hsorted j i _ hi hlt
    · have : j = i := by omega
      subst this
      exact le_rfl
  have htake : (l.take (i + 1)).countP (· ≤ l[i]) = i + 1 := by
    rw [List.countP_eq_length.2 (by simpa using hall), List.length_take]
    omega
  have hle := (List.take_sublist (i + 1) l).countP_le (p := fun x => decide (x ≤ l[i]))
  rw [htake] at hle
  exact hle

theorem countP_le_of_lt (hsorted : l.Pairwise (· ≤ ·)) (hi : i < l.length) {y : α} (hy : y < l[i]) :
    l.countP (· ≤ y) ≤ i := by
  have hnone : (l.drop i).countP (· ≤ y) = 0 := by
    refine List.countP_eq_zero.2 fun x hx => ?_
    obtain ⟨j, hj, rfl⟩ := List.mem_drop_iff_getElem.1 hx
    have hij : i + j < l.length := by omega
    have hle : l[i] ≤ l[i + j] := by
      rcases Nat.eq_zero_or_pos j with rfl | hpos
      · exact le_of_eq rfl
      · exact List.pairwise_iff_getElem.1 hsorted i (i + j) hi hij (by omega)
    simpa using hy.trans_le hle
  have hsplit : l.countP (· ≤ y) = (l.take i).countP (· ≤ y) + (l.drop i).countP (· ≤ y) := by
    rw [← List.countP_append, List.take_append_drop]
  rw [hsplit, hnone, Nat.add_zero]
  exact List.countP_le_length.trans (List.length_take_le i l)

theorem isNearestRank_getElem (hsorted : l.Pairwise (· ≤ ·)) (hi : i < l.length)
    (henough : p * l.length ≤ 100 * (i + 1)) (hleast : 100 * i < p * l.length) :
    IsNearestRank (l : Multiset α) p l[i] where
  mem := List.getElem_mem hi
  enough := by
    have hcount := lt_countP_le hsorted hi
    rw [Multiset.coe_card, Multiset.coe_countP]
    omega
  least y _ hy := by
    by_contra hlt
    have hcount := countP_le_of_lt hsorted hi (not_le.1 hlt)
    rw [Multiset.coe_card, Multiset.coe_countP] at hy
    omega

end NearestRank

end DbLab
