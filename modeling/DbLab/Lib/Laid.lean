import DbLab.Lib.Checked
import DbLab.Lib.Sorted

/-!
# Items one behind the other

`Laid decode offset items last` says that a decoder reads the items from an offset on, each where the one
before it ends. A loop that reads up to a limit and wants increasing keys ends well with such items
(`readSorted_spec`), and reads them all if they end at its limit (`readSorted_eq`).
-/

namespace DbLab

section ReadSorted

variable {ε α κ : Type} [LinearOrder κ]

/-- A loop that reads items one behind the other up to a limit, and wants their keys to increase. -/
def readSorted (key : α → κ) (decode : ℕ → Except ε (α × ℕ))
    (progress : ∀ offset a next, decode offset = .ok (a, next) → offset < next) (unsorted : ℕ → ε) (limit offset : ℕ)
    (previous : Option κ) : Except ε (List α × ℕ) :=
  if offset < limit then
    match h : decode offset with
    | .error e => .error e
    | .ok (a, next) =>
      if previous.any fun last => key a ≤ last then .error (unsorted offset)
      else
        match readSorted key decode progress unsorted limit next (some (key a)) with
        | .error e => .error e
        | .ok (items, last) => .ok (a :: items, last)
  else .ok ([], offset)
termination_by limit - offset
decreasing_by
  have := progress offset a next h
  omega

/-- Items one behind the other, from an offset to another. -/
def Laid (decode : ℕ → Except ε (α × ℕ)) : ℕ → List α → ℕ → Prop
  | offset, [], last => offset = last
  | offset, a :: items, last => ∃ next, decode offset = .ok (a, next) ∧ Laid decode next items last

variable {key : α → κ} {decode : ℕ → Except ε (α × ℕ)}
  {progress : ∀ offset a next, decode offset = .ok (a, next) → offset < next} {unsorted : ℕ → ε}
  {limit offset last : ℕ} {previous : Option κ} {items : List α}

theorem Laid.le (h : Laid decode offset items last)
    (progress : ∀ offset a next, decode offset = .ok (a, next) → offset < next) : offset ≤ last := by
  induction items generalizing offset with
  | nil => exact h.le
  | cons a items ih =>
    obtain ⟨next, hdecode, hrest⟩ := h
    exact (progress offset a next hdecode).le.trans (ih hrest)

/-- An item stands somewhere. -/
theorem Laid.exists_decode (h : Laid decode offset items last) {a : α} (ha : a ∈ items) :
    ∃ at_ next, decode at_ = .ok (a, next) := by
  induction items generalizing offset with
  | nil => cases ha
  | cons b items ih =>
    obtain ⟨next, hdecode, hrest⟩ := h
    rcases List.mem_cons.1 ha with rfl | ha
    · exact ⟨offset, next, hdecode⟩
    · exact ih hrest ha

/-- **What a loop has read**: items one behind the other, with increasing keys. -/
theorem readSorted_spec (h : readSorted key decode progress unsorted limit offset previous = .ok (items, last)) :
    Laid decode offset items last ∧ SortedBy key items ∧ ∀ p ∈ previous, ∀ a ∈ items, p < key a := by
  induction items generalizing offset previous with
  | nil =>
    rw [readSorted] at h
    split_ifs at h
    · split at h
      · cases h
      · split_ifs at h
        split at h
        · cases h
        · cases h
    · cases h
      exact ⟨rfl, sortedBy_nil, by simp⟩
  | cons a items ih =>
    rw [readSorted] at h
    split_ifs at h
    · split at h
      · cases h
      · next b next hdecode =>
        split_ifs at h with hfollows
        split at h
        · cases h
        · next rest last' hrest =>
          cases h
          obtain ⟨hlaid, hsorted, hgreater⟩ := ih hrest
          refine ⟨⟨next, hdecode, hlaid⟩, sortedBy_cons.2 ⟨fun b hb => hgreater _ rfl b hb, hsorted⟩, ?_⟩
          intro p hp b hb
          have hlt : p < key a := by
            rw [Option.mem_def] at hp
            rw [hp] at hfollows
            simpa using hfollows
          rcases List.mem_cons.1 hb with rfl | hb
          · exact hlt
          · exact hlt.trans (hgreater _ rfl b hb)
    · cases h

/-- **A loop reads** what is laid up to its limit. -/
theorem readSorted_eq (h : Laid decode offset items limit) (hsorted : SortedBy key items)
    (hprevious : ∀ p ∈ previous, ∀ a ∈ items, p < key a) :
    readSorted key decode progress unsorted limit offset previous = .ok (items, limit) := by
  induction items generalizing offset previous with
  | nil =>
    obtain rfl : offset = limit := h
    rw [readSorted, if_neg (lt_irrefl _)]
  | cons a items ih =>
    obtain ⟨next, hdecode, hrest⟩ := h
    obtain ⟨hhead, htail⟩ := sortedBy_cons.1 hsorted
    have hlt : offset < limit := (progress offset a next hdecode).trans_le (hrest.le progress)
    have hfollows : ¬ (previous.any fun last => key a ≤ last) = true := by
      cases previous with
      | none => simp
      | some p => simpa using hprevious p rfl a List.mem_cons_self
    have hnext : readSorted key decode progress unsorted limit next (some (key a)) = .ok (items, limit) :=
      ih hrest htail (by rintro _ ⟨⟩ b hb; exact hhead b hb)
    rw [readSorted, if_pos hlt]
    split
    · next e he => cases hdecode.symm.trans he
    · next b next' hb =>
      cases hdecode.symm.trans hb
      rw [if_neg hfollows, hnext]

/-- One round of the loop. -/
theorem readSorted_eq_bind : readSorted key decode progress unsorted limit offset previous =
    if offset < limit then do
      let read ← decode offset
      if previous.any fun last => key read.1 ≤ last then .error (unsorted offset)
      else do
        let rest ← readSorted key decode progress unsorted limit read.2 (some (key read.1))
        .ok (read.1 :: rest.1, rest.2)
    else .ok ([], offset) := by
  rw [readSorted]
  split_ifs
  · split
    · next e he =>
      rw [he]
      rfl
    · next a next ha =>
      rw [ha, Checked.ok_bind]
      split_ifs
      · rfl
      · cases readSorted key decode progress unsorted limit next (some (key a)) with
        | error e => rfl
        | ok rest => rfl
  · rfl

end ReadSorted
end DbLab
