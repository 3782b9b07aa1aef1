import DbLab.Lib.SortedMap

/-!
# Layers of versions

Layers of versioned entries, oldest first. A point lookup asks the newest layer first and stops at the
first hit; an overlay merges all layers and keeps the version with the largest sequence number.
`find_overlayAll_of_ascending` says that the two agree when the layers ascend: the sequence numbers of a
layer are above those of the layers below it. So it is in a stack, where every layer has its own interval
of sequence numbers.
-/

namespace DbLab

/-- A value or a tombstone with its sequence number. -/
structure Version (α : Type) where
  sequence : ℕ
  value : Option α
  deriving DecidableEq

variable {κ α : Type} [LinearOrder κ]

/-- A layer of versions. -/
abbrev Layer (κ α : Type) [LinearOrder κ] := SortedMap κ (Version α)

/-- The version with the larger sequence number; the first one if they are equal. -/
def newer : Option (Version α) → Option (Version α) → Option (Version α)
  | a, none => a
  | none, some b => some b
  | some a, some b => if a.sequence < b.sequence then some b else some a

/-- Put a version over one with a smaller sequence number. -/
def supersede (visible : Layer κ α) (e : κ × Version α) : Layer κ α :=
  match visible.find e.1 with
  | none => visible.insert e.1 e.2
  | some current => if current.sequence < e.2.sequence then visible.insert e.1 e.2 else visible

def overlay (visible : Layer κ α) (entries : List (κ × Version α)) : Layer κ α :=
  entries.foldl supersede visible

/-- All layers over one another, oldest first. -/
def overlayAll (layers : List (Layer κ α)) : Layer κ α :=
  layers.foldl (fun visible layer => overlay visible layer.entries) .empty

/-- The first hit, newest layer first. -/
def firstHit (layers : List (Layer κ α)) (k : κ) : Option (Version α) :=
  layers.reverse.findSome? fun layer => layer.find k

variable {visible : Layer κ α} {layer : Layer κ α} {layers : List (Layer κ α)} {k : κ}
  {entries : List (κ × Version α)} {e : κ × Version α}

@[simp] theorem newer_none {a : Option (Version α)} : newer a none = a := by cases a <;> rfl

@[simp] theorem none_newer {b : Option (Version α)} : newer none b = b := by cases b <;> rfl

theorem newer_of_lt {a : Option (Version α)} {b : Version α} (h : ∀ v ∈ a, v.sequence < b.sequence) :
    newer a (some b) = some b := by
  cases a with
  | none => rfl
  | some v => exact if_pos (h v rfl)

theorem find_supersede :
    (supersede visible e).find k = if k = e.1 then newer (visible.find k) (some e.2) else visible.find k := by
  unfold supersede
  by_cases hk : k = e.1
  · subst hk
    rw [if_pos rfl]
    cases hfind : visible.find e.1 with
    | none => simp [newer]
    | some current =>
      simp only [newer]
      by_cases hlt : current.sequence < e.2.sequence
      · rw [if_pos hlt, if_pos hlt, SortedMap.find_insert, if_pos rfl]
      · rw [if_neg hlt, if_neg hlt, hfind]
  · rw [if_neg hk]
    cases visible.find e.1 with
    | none => simp [hk]
    | some current =>
      by_cases hlt : current.sequence < e.2.sequence
      · simp [hlt, hk]
      · simp [hlt]

theorem find_overlay (h : SortedBy Prod.fst entries) :
    (overlay visible entries).find k =
      newer (visible.find k) ((lookupBy Prod.fst k entries).map Prod.snd) := by
  induction entries generalizing visible with
  | nil => simp [overlay]
  | cons e entries ih =>
    obtain ⟨hhead, htail⟩ := sortedBy_cons.1 h
    have hstep : overlay visible (e :: entries) = overlay (supersede visible e) entries := rfl
    rw [hstep, ih htail, find_supersede, lookupBy_cons]
    by_cases hk : e.1 = k
    · have hnone : lookupBy Prod.fst k entries = none :=
        lookupBy_eq_none.2 fun b hb => hk ▸ (hhead b hb).ne'
      simp [hk, hnone]
    · simp [hk, Ne.symm hk]

theorem find_overlay_entries :
    (overlay visible layer.entries).find k = newer (visible.find k) (layer.find k) :=
  find_overlay layer.sorted

theorem overlayAll_concat :
    overlayAll (layers ++ [layer]) = overlay (overlayAll layers) layer.entries := by
  rw [overlayAll, List.foldl_append]
  rfl

theorem firstHit_concat : firstHit (layers ++ [layer]) k = (layer.find k).or (firstHit layers k) := by
  rw [firstHit, List.reverse_append, List.reverse_singleton, List.singleton_append, List.findSome?_cons]
  cases layer.find k with
  | none => rfl
  | some v => rfl

theorem firstHit_append {older newest : List (Layer κ α)} :
    firstHit (older ++ newest) k = (firstHit newest k).or (firstHit older k) := by
  rw [firstHit, List.reverse_append, List.findSome?_append]
  rfl

theorem firstHit_mem {v : Version α} (h : firstHit layers k = some v) :
    ∃ layer ∈ layers, layer.find k = some v := by
  obtain ⟨layer, hmem, hv⟩ := List.exists_of_findSome?_eq_some h
  exact ⟨layer, List.mem_reverse.1 hmem, hv⟩

/-! ### Ascending layers -/

/-- The versions of a layer are newer than those of all layers below it. -/
def Ascending (layers : List (Layer κ α)) : Prop :=
  layers.Pairwise fun older newer => ∀ k v k' v', older.find k = some v → newer.find k' = some v' →
    v.sequence < v'.sequence

theorem ascending_concat :
    Ascending (layers ++ [layer]) ↔ Ascending layers ∧ ∀ older ∈ layers, ∀ k v k' v', older.find k = some v →
      layer.find k' = some v' → v.sequence < v'.sequence := by
  simp [Ascending, List.pairwise_append]

/-- **The overlay and the first hit agree on ascending layers.** -/
theorem find_overlayAll_of_ascending (h : Ascending layers) :
    (overlayAll layers).find k = firstHit layers k := by
  induction layers using List.reverseRecOn with
  | nil => rfl
  | append_singleton layers layer ih =>
    obtain ⟨hlayers, hlayer⟩ := ascending_concat.1 h
    rw [overlayAll_concat, find_overlay_entries, ih hlayers, firstHit_concat]
    cases hfind : layer.find k with
    | none => simp
    | some v =>
      rw [Option.some_or]
      refine newer_of_lt fun u hu => ?_
      obtain ⟨older, holder, hu⟩ := firstHit_mem hu
      exact hlayer older holder k u k v hu hfind

/-- The first hit in ascending layers is the newest version. -/
theorem firstHit_newest_of_ascending {v u : Version α} (h : Ascending layers) (hv : firstHit layers k = some v)
    (hlayer : layer ∈ layers) (hu : layer.find k = some u) : u.sequence ≤ v.sequence := by
  induction layers using List.reverseRecOn with
  | nil => cases hlayer
  | append_singleton layers top ih =>
    obtain ⟨hlayers, htop⟩ := ascending_concat.1 h
    rw [firstHit_concat] at hv
    cases hfind : top.find k with
    | none =>
      rw [hfind, Option.none_or] at hv
      rcases List.mem_append.1 hlayer with hlayer | hlayer
      · exact ih hlayers hv hlayer
      · rw [List.mem_singleton.1 hlayer, hfind] at hu
        cases hu
    | some w =>
      rw [hfind, Option.some_or, Option.some.injEq] at hv
      subst hv
      rcases List.mem_append.1 hlayer with hlayer | hlayer
      · exact (htop layer hlayer k u k w hu hfind).le
      · rw [List.mem_singleton.1 hlayer, hfind] at hu
        exact (congrArg Version.sequence (Option.some.inj hu)).ge

/-! ### Stacks -/

/-- All sequence numbers of the layer are above `low` and at most `high`. -/
def Within (low high : ℕ) (layer : Layer κ α) : Prop :=
  ∀ k v, layer.find k = some v → low < v.sequence ∧ v.sequence ≤ high

/-- Layers with their upper ends, each above the one below it. -/
def Stacked (low : ℕ) : List (Layer κ α × ℕ) → Prop
  | [] => True
  | (layer, high) :: rest => low ≤ high ∧ Within low high layer ∧ Stacked high rest

/-- The upper end of a stack. -/
def stackTop (low : ℕ) (stack : List (Layer κ α × ℕ)) : ℕ := (stack.getLast?.map Prod.snd).getD low

variable {stack stack' : List (Layer κ α × ℕ)} {low low' high high' : ℕ}

theorem Within.mono (h : Within low high layer) (hlow : low' ≤ low) (hhigh : high ≤ high') :
    Within low' high' layer := fun k v hv =>
  ⟨hlow.trans_lt (h k v hv).1, (h k v hv).2.trans hhigh⟩

theorem within_empty : Within low high (SortedMap.empty : Layer κ α) := by
  intro k v hv
  cases hv

theorem Within.insert {v : Version α} (h : Within low high layer) (hlow : low < v.sequence)
    (hhigh : high ≤ v.sequence) : Within low v.sequence (layer.insert k v) := by
  intro k' v' hv'
  rw [SortedMap.find_insert] at hv'
  split_ifs at hv' with hk
  · cases hv'
    exact ⟨hlow, le_rfl⟩
  · exact ⟨(h k' v' hv').1, (h k' v' hv').2.trans hhigh⟩

@[simp] theorem stackTop_nil : stackTop low ([] : List (Layer κ α × ℕ)) = low := rfl

@[simp] theorem stackTop_cons {top : Layer κ α × ℕ} : stackTop low (top :: stack) = stackTop top.2 stack := by
  cases hlast : stack.getLast? with
  | none =>
    rw [List.getLast?_eq_none_iff] at hlast
    subst hlast
    rfl
  | some last => simp [stackTop, List.getLast?_cons, hlast]

theorem stacked_append :
    Stacked low (stack ++ stack') ↔ Stacked low stack ∧ Stacked (stackTop low stack) stack' := by
  induction stack generalizing low with
  | nil => simp [Stacked]
  | cons top stack ih =>
    obtain ⟨layer, high⟩ := top
    rw [List.cons_append, Stacked, Stacked, ih, stackTop_cons, and_assoc, and_assoc]

theorem Stacked.le_top (h : Stacked low stack) : low ≤ stackTop low stack := by
  induction stack generalizing low with
  | nil => exact le_rfl
  | cons top stack ih =>
    obtain ⟨hle, -, hrest⟩ := h
    rw [stackTop_cons]
    exact hle.trans (ih hrest)

theorem Stacked.within {top : Layer κ α × ℕ} (h : Stacked low stack) (htop : top ∈ stack) :
    Within low (stackTop low stack) top.1 := by
  induction stack generalizing low with
  | nil => cases htop
  | cons first stack ih =>
    obtain ⟨hle, hwithin, hrest⟩ := h
    rw [stackTop_cons]
    rcases List.mem_cons.1 htop with rfl | htop
    · exact hwithin.mono le_rfl hrest.le_top
    · exact (ih hrest htop).mono hle le_rfl

theorem Stacked.mono (h : Stacked low stack) (hle : low' ≤ low) : Stacked low' stack := by
  cases stack with
  | nil => trivial
  | cons top stack =>
    obtain ⟨hlow, hwithin, hrest⟩ := h
    exact ⟨hle.trans hlow, hwithin.mono hle le_rfl, hrest⟩

theorem Stacked.le_high {top : Layer κ α × ℕ} {v : Version α} (h : Stacked low stack) (htop : top ∈ stack)
    (hv : top.1.find k = some v) : v.sequence ≤ top.2 := by
  induction stack generalizing low with
  | nil => cases htop
  | cons first stack ih =>
    obtain ⟨-, hwithin, hrest⟩ := h
    rcases List.mem_cons.1 htop with rfl | htop
    · exact (hwithin k v hv).2
    · exact ih hrest htop

/-- A layer lies above the upper ends of all layers below it. -/
theorem Stacked.pairwise (h : Stacked low stack) :
    stack.Pairwise fun older newer => ∀ k v, newer.1.find k = some v → older.2 < v.sequence := by
  induction stack generalizing low with
  | nil => exact List.Pairwise.nil
  | cons first stack ih =>
    obtain ⟨-, -, hrest⟩ := h
    exact List.pairwise_cons.2 ⟨fun newer hnewer k v hv => (hrest.within hnewer k v hv).1, ih hrest⟩

theorem Stacked.ascending (h : Stacked low stack) : Ascending (stack.map Prod.fst) := by
  rw [Ascending, List.pairwise_map]
  refine List.Pairwise.imp_of_mem (fun {older newer} holder _ hlt k v k' v' hv hv' => ?_) h.pairwise
  exact (h.le_high holder hv).trans_lt (hlt k' v' hv')

/-- **The overlay and the first hit agree on a stack.** -/
theorem find_overlayAll (h : Stacked low stack) :
    (overlayAll (stack.map Prod.fst)).find k = firstHit (stack.map Prod.fst) k :=
  find_overlayAll_of_ascending h.ascending

/-- The first hit is the version with the largest sequence number. -/
theorem firstHit_newest {v u : Version α} (h : Stacked low stack) (hv : firstHit (stack.map Prod.fst) k = some v)
    (hlayer : layer ∈ stack.map Prod.fst) (hu : layer.find k = some u) : u.sequence ≤ v.sequence :=
  firstHit_newest_of_ascending h.ascending hv hlayer hu

end DbLab
