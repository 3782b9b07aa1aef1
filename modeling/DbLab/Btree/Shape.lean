import DbLab.Btree.CellFacts

/-!
# Trees of entries

What a tree of pages says, without page ids: a tree of height index `n` is a list of entries for
`n = 0` and a list of subtrees otherwise, so that all leaves are at one depth. The separator of a
subtree is its smallest key. `insert` is the insertion along one path with the divisions of the
rewritten lists that the page size forces; `put` adds the growth of the root.
-/

namespace DbLab.Btree

variable {α β : Type}

/-- A key and a value, and whether each of them stays inside its cell. -/
structure Entry where
  key : Bytes
  value : Bytes
  keyInline : Bool
  valueInline : Bool
  deriving DecidableEq

/-- The key and value of an entry. -/
def Entry.pair (e : Entry) : Bytes × Bytes := (e.key, e.value)

/-- Bytes that a key takes in a cell. -/
def keyCost (length : ℕ) (keyInline : Bool) : ℕ := if keyInline then length else keyOverflowRefLen

/-- The size of a leaf cell with its slot. -/
def Entry.size (e : Entry) : ℕ :=
  slotLen + (leafCellHeaderLen + keyCost e.key.length e.keyInline +
    if e.valueInline then e.value.length else overflowValueRefLen)

/-- The size of an internal cell with its slot. -/
def separatorSize (key : Bytes) : ℕ :=
  slotLen + (internalCellHeaderLen + keyCost key.length (key.length ≤ maxInlineKeyBytes))

/-- The form in which a new pair is stored. -/
def Entry.of (key value : Bytes) : Entry where
  key := key
  value := value
  keyInline := key.length ≤ maxInlineKeyBytes
  valueInline :=
    slotLen + leafCellHeaderLen + keyCost key.length (key.length ≤ maxInlineKeyBytes) + value.length
      ≤ pageBodyCapacity

/-- A tree with `n` levels of internal pages. -/
def Tree : ℕ → Type
  | 0 => List Entry
  | n + 1 => List (Tree n)

namespace Tree

/-- A leaf. -/
def leaf (es : List Entry) : Tree 0 := es

/-- The entries of a leaf. -/
def cells (t : Tree 0) : List Entry := t

/-- An internal page. -/
def node {n : ℕ} (cs : List (Tree n)) : Tree (n + 1) := cs

/-- The subtrees of an internal page. -/
def children {n : ℕ} (t : Tree (n + 1)) : List (Tree n) := t

@[simp] theorem cells_leaf (es : List Entry) : (leaf es).cells = es := rfl

@[simp] theorem children_node {n : ℕ} (cs : List (Tree n)) : (node cs).children = cs := rfl

@[simp] theorem leaf_cells (t : Tree 0) : leaf t.cells = t := rfl

@[simp] theorem node_children {n : ℕ} (t : Tree (n + 1)) : node t.children = t := rfl

/-- All entries, from left to right. -/
def entries : {n : ℕ} → Tree n → List Entry
  | 0, t => t.cells
  | _ + 1, t => t.children.flatMap entries

/-- The smallest key. -/
def minKey {n : ℕ} (t : Tree n) : Bytes := (t.entries.head?.map Entry.key).getD []

/-- The largest key. -/
def maxKey {n : ℕ} (t : Tree n) : Bytes := (t.entries.getLast?.map Entry.key).getD []

/-- Every page has a cell. -/
def Proper : {n : ℕ} → Tree n → Prop
  | 0, t => t.cells ≠ []
  | _ + 1, t => t.children ≠ [] ∧ ∀ c ∈ t.children, Proper c

/-- Every internal page has two children. -/
def Wide : {n : ℕ} → Tree n → Prop
  | 0, _ => True
  | _ + 1, t => 2 ≤ t.children.length ∧ ∀ c ∈ t.children, Wide c

/-- The keys are strictly increasing from left to right. -/
def Sorted {n : ℕ} (t : Tree n) : Prop := SortedBy Entry.key t.entries

end Tree

/-! ### Divisions -/

/-- The one or two parts into which the cells of a page are written. -/
def divide (size : α → ℕ) (items : List α) : Option (List (List α)) :=
  if (items.map size).sum ≤ pageBodyCapacity then some [items]
  else (splitSizes (items.map size)).map fun k => [items.take k, items.drop k]

/-- The cells fit in one page, or in two behind some cut. -/
def Divisible (size : α → ℕ) (items : List α) : Prop :=
  (items.map size).sum ≤ pageBodyCapacity ∨
    ∃ k, 1 ≤ k ∧ k < items.length ∧ CutFits (items.map size) k

theorem divide_isSome {size : α → ℕ} {items : List α} :
    (divide size items).isSome ↔ Divisible size items := by
  unfold divide Divisible
  split_ifs with h
  · exact iff_of_true rfl (.inl h)
  · rw [Option.isSome_map, Option.isSome_iff_ne_none, ne_eq, splitSizes_eq_none, List.length_map]
    push Not
    exact ⟨.inr, fun hd => hd.resolve_left h⟩

/-- The parts of a division, in order, are the items; none is empty. -/
theorem divide_eq_some {size : α → ℕ} {items : List α} {parts : List (List α)}
    (h : divide size items = some parts) (hne : items ≠ []) :
    parts.flatten = items ∧ (∀ part ∈ parts, part ≠ []) ∧
      (∀ part ∈ parts, (part.map size).sum ≤ pageBodyCapacity) ∧ (parts.length = 1 ∨ parts.length = 2) := by
  unfold divide at h
  split_ifs at h with hfit
  · cases h
    exact ⟨by simp, by simpa using hne, by simpa using hfit, .inl rfl⟩
  · obtain ⟨k, hk, rfl⟩ := Option.map_eq_some_iff.1 h
    obtain ⟨h1, h2, hleft, hright⟩ := splitSizes_eq_some hk
    rw [List.length_map] at h2
    refine ⟨by simp, ?_, ?_, .inr rfl⟩
    · rintro part hp rfl
      rcases List.mem_pair.1 hp with hp | hp
      · have := congrArg List.length hp
        simp only [List.length_nil, List.length_take] at this
        omega
      · have := congrArg List.length hp
        simp only [List.length_nil, List.length_drop] at this
        omega
    · intro part hp
      rcases List.mem_pair.1 hp with rfl | rfl
      · rw [List.map_take]; exact hleft
      · rw [List.map_drop]; exact hright

/-- Dividing lists of one shape. -/
theorem divide_map {size : β → ℕ} {f : α → β} {items : List α} :
    divide size (items.map f) = (divide (fun a => size (f a)) items).map (List.map (List.map f)) := by
  unfold divide
  rw [List.map_map]
  split_ifs with h1 h2 h2
  · rfl
  · exact absurd h1 h2
  · exact absurd h2 h1
  · have hcomp : size ∘ f = fun a => size (f a) := rfl
    rw [hcomp, Option.map_map]
    congr 1
    funext k
    simp [List.map_take, List.map_drop]

namespace Tree

variable {n : ℕ} {t : Tree n} {e : Entry}

/-! ### Insertion -/

/-- The child of an internal page that the key is routed to. -/
def route {n : ℕ} (t : Tree (n + 1)) (key : Bytes) : ℕ := routeIndex (t.children.map minKey) key

/-- The parts that replace a tree when an entry is put into it. -/
def insert (e : Entry) : {n : ℕ} → Tree n → Option (List (Tree n))
  | 0, t => (divide Entry.size (upsertBy Entry.key e t.cells)).map (List.map leaf)
  | _ + 1, t =>
    t.children[t.route e.key]?.bind fun c => (insert e c).bind fun parts =>
      (divide (fun c => separatorSize c.minKey) (splice t.children (t.route e.key) parts)).map
        (List.map node)

/-- A root of some height. -/
abbrev Root := Option (Σ n, Tree n)

/-- The tree over one or two replacements of the root. -/
def grow {n : ℕ} : List (Tree n) → Root
  | [a] => some ⟨n, a⟩
  | [a, b] =>
    if separatorSize a.minKey + separatorSize b.minKey ≤ pageBodyCapacity then
      some ⟨n + 1, node [a, b]⟩
    else
      none
  | _ => none

/-- The tree after an entry is put into it. -/
def put (e : Entry) : Root → Root
  | none => if e.size ≤ pageBodyCapacity then some ⟨0, leaf [e]⟩ else none
  | some ⟨_, t⟩ => (insert e t).bind grow

@[simp] theorem entries_zero (t : Tree 0) : t.entries = t.cells := rfl

@[simp] theorem entries_succ (t : Tree (n + 1)) : t.entries = t.children.flatMap entries := rfl

theorem Proper.entries_ne : ∀ {n : ℕ} {t : Tree n}, t.Proper → t.entries ≠ []
  | 0, _, h => h
  | n + 1, t, h => by
    obtain ⟨c, hc⟩ := List.exists_mem_of_ne_nil _ h.1
    rw [entries_succ, ne_eq, List.flatMap_eq_nil_iff]
    exact fun hall => (h.2 c hc).entries_ne (hall c hc)

theorem minKey_of_entries {l : List Entry} (h : t.entries = e :: l) : t.minKey = e.key := by
  simp [minKey, h]

/-- The smallest key is a key, and no key is smaller. -/
theorem Sorted.minKey_le (h : t.Sorted) (he : e ∈ t.entries) : t.minKey ≤ e.key := by
  unfold Sorted at h
  cases hes : t.entries with
  | nil => rw [hes] at he; cases he
  | cons a l =>
    rw [hes, sortedBy_cons] at h
    rw [minKey_of_entries hes]
    rw [hes] at he
    rcases List.mem_cons.1 he with rfl | he
    · exact le_rfl
    · exact (h.1 e he).le

theorem Proper.exists_minKey (h : t.Proper) : ∃ e ∈ t.entries, e.key = t.minKey := by
  obtain ⟨e, l, he⟩ := List.exists_cons_of_ne_nil h.entries_ne
  exact ⟨e, by simp [he], (minKey_of_entries he).symm⟩

@[simp] theorem flatMap_leaf (parts : List (List Entry)) :
    (parts.map leaf).flatMap entries = parts.flatten := by
  rw [List.flatMap_map]
  exact List.flatMap_id'

@[simp] theorem flatMap_node (parts : List (List (Tree n))) :
    (parts.map node).flatMap entries = parts.flatten.flatMap entries := by
  induction parts with
  | nil => rfl
  | cons part parts ih => simp [ih]

/-- The largest key is a key, and no key is larger. -/
theorem Sorted.le_maxKey (h : t.Sorted) (he : e ∈ t.entries) : e.key ≤ t.maxKey := by
  unfold Sorted at h
  rcases List.eq_nil_or_concat t.entries with hes | ⟨l, a, hes⟩
  · rw [hes] at he; cases he
  · rw [List.concat_eq_append] at hes
    have hmax : t.maxKey = a.key := by simp [maxKey, hes]
    rw [hes, sortedBy_append] at h
    rw [hmax]
    rw [hes] at he
    rcases List.mem_append.1 he with he | he
    · exact (h.2.2 e he a (by simp)).le
    · rw [List.mem_singleton.1 he]

theorem Proper.exists_maxKey (h : t.Proper) : ∃ e ∈ t.entries, e.key = t.maxKey := by
  rcases List.eq_nil_or_concat t.entries with hes | ⟨l, a, hes⟩
  · exact absurd hes h.entries_ne
  · rw [List.concat_eq_append] at hes
    exact ⟨a, by simp [hes], by simp [maxKey, hes]⟩

theorem minKey_node {c : Tree n} {cs : List (Tree n)} (h : c.Proper) :
    (node (c :: cs)).minKey = c.minKey := by
  obtain ⟨x, l, hx⟩ := List.exists_cons_of_ne_nil h.entries_ne
  simp [minKey, hx]

theorem maxKey_node {c : Tree n} {cs : List (Tree n)} (h : c.Proper) :
    (node (cs ++ [c])).maxKey = c.maxKey := by
  rcases List.eq_nil_or_concat c.entries with hes | ⟨l, a, hes⟩
  · exact absurd hes h.entries_ne
  · rw [List.concat_eq_append] at hes
    simp [maxKey, hes]

/-- What the validation walk asks of a tree. -/
structure Valid {n : ℕ} (t : Tree n) : Prop where
  proper : t.Proper
  sorted : t.Sorted
  wide : t.Wide

/-! ### Sorted subtrees -/

/-- Subtrees whose entries are in order one after the other. -/
abbrev SortedChildren (cs : List (Tree n)) : Prop := SortedBy Entry.key (cs.flatMap entries)

theorem SortedChildren.sorted {cs : List (Tree n)} (h : SortedChildren cs) {c : Tree n}
    (hc : c ∈ cs) : c.Sorted :=
  h.sublist (List.sublist_flatten_of_mem (List.mem_map_of_mem hc))

theorem SortedChildren.minKeys {cs : List (Tree n)} (h : SortedChildren cs)
    (hp : ∀ c ∈ cs, c.Proper) : StrictlyIncreasing (cs.map minKey) := by
  rw [StrictlyIncreasing, List.isChain_iff_pairwise, List.pairwise_map]
  induction cs with
  | nil => exact .nil
  | cons c cs ih =>
    rw [SortedChildren, List.flatMap_cons, sortedBy_append] at h
    refine List.pairwise_cons.2 ⟨fun d hd => ?_, ih h.2.1 fun d hd => hp d (by simp [hd])⟩
    obtain ⟨a, ha, hac⟩ := (hp c (by simp)).exists_minKey
    obtain ⟨b, hb, hbd⟩ := (hp d (by simp [hd])).exists_minKey
    rw [← hac, ← hbd]
    exact h.2.2 a ha b (List.mem_flatMap.2 ⟨d, hd, hb⟩)

/-- The entries of subtrees are in order when each subtree is sorted and the ranges of neighbours do
not overlap. -/
theorem sortedChildren_iff {cs : List (Tree n)} (hp : ∀ c ∈ cs, c.Proper) :
    SortedChildren cs ↔
      (∀ c ∈ cs, c.Sorted) ∧ cs.IsChain fun a b => a.maxKey < b.minKey := by
  induction cs with
  | nil => simp [SortedChildren]
  | cons c cs ih =>
    have hp' : ∀ d ∈ cs, d.Proper := fun d hd => hp d (by simp [hd])
    have ih := ih hp'
    cases cs with
    | nil => simp [Sorted, SortedChildren]
    | cons d ds =>
      rw [SortedChildren, List.flatMap_cons, sortedBy_append, List.isChain_cons_cons,
        List.forall_mem_cons]
      constructor
      · rintro ⟨hc, hrest, hlt⟩
        obtain ⟨hsorted, hchain⟩ := ih.1 hrest
        refine ⟨⟨hc, hsorted⟩, ?_, hchain⟩
        obtain ⟨a, ha, hac⟩ := (hp c (by simp)).exists_maxKey
        obtain ⟨b, hb, hbd⟩ := (hp d (by simp)).exists_minKey
        rw [← hac, ← hbd]
        exact hlt a ha b (by simp [hb])
      · rintro ⟨⟨hc, hsorted⟩, hlt, hchain⟩
        have hrest : SortedChildren (d :: ds) := ih.2 ⟨hsorted, hchain⟩
        refine ⟨hc, hrest, fun a ha b hb => ?_⟩
        -- the smallest key of the first subtree behind `c` is the smallest of them all
        have hmin : (node (d :: ds)).minKey = d.minKey := minKey_node (hp d (by simp))
        have hb' : d.minKey ≤ b.key := by
          rw [← hmin]
          exact Sorted.minKey_le (t := node (d :: ds)) hrest hb
        exact ((Sorted.le_maxKey hc ha).trans_lt hlt).trans_le hb'

/-- **Routing**: everything left of the routed child is smaller than the key, everything right of
it is larger. -/
theorem route_split {t : Tree (n + 1)} (hp : t.Proper) (hs : t.Sorted) (key : Bytes) :
    ∃ front c back, t.children = front ++ c :: back ∧ t.route key = front.length ∧
      (∀ e ∈ front.flatMap entries, e.key < key) ∧ ∀ e ∈ back.flatMap entries, key < e.key := by
  have hsc : SortedChildren t.children := hs
  have hinc := hsc.minKeys hp.2
  obtain ⟨front', m, back', heq, hidx, hm, hback⟩ :=
    routeIndex_split hinc (by simpa using hp.1) key
  obtain ⟨front, rest, hsplit, hfront, hrest⟩ := List.map_eq_append_iff.1 heq
  obtain ⟨c, back, rfl, rfl, hback'⟩ := List.map_eq_cons_iff.1 hrest
  rw [hsplit, SortedChildren, List.flatMap_append, List.flatMap_cons, sortedBy_append,
    sortedBy_append] at hsc
  refine ⟨front, c, back, hsplit, by rw [route, hidx, ← hfront, List.length_map], ?_, ?_⟩
  · intro e he
    have hne : front' ≠ [] := by
      rw [← hfront]
      rintro hnil
      rw [List.map_eq_nil_iff] at hnil
      rw [hnil] at he
      cases he
    obtain ⟨a, ha, hac⟩ := (hp.2 c (by simp [hsplit])).exists_minKey
    exact (hsc.2.2 e he a (List.mem_append_left _ ha)).trans_le (hac ▸ hm.resolve_left hne)
  · intro e he
    obtain ⟨d, hd, hed⟩ := List.mem_flatMap.1 he
    have hk : key < d.minKey := hback _ (by rw [← hback']; exact List.mem_map_of_mem hd)
    exact hk.trans_le (Sorted.minKey_le (SortedChildren.sorted hsc.2.1.2.1 hd) hed)

@[simp] theorem splice_append {front back items : List α} {c : α} :
    splice (front ++ c :: back) front.length items = front ++ items ++ back := by
  simp [splice]

/-! ### What insertion does -/

/-- The list of children that insertion divides again. -/
theorem insert_succ {t : Tree (n + 1)} {front back : List (Tree n)} {c : Tree n}
    (hsplit : t.children = front ++ c :: back) (hidx : t.route e.key = front.length) :
    insert e t = (insert e c).bind fun parts =>
      (divide (fun c => separatorSize c.minKey) (front ++ parts ++ back)).map (List.map node) := by
  rw [insert, hsplit, hidx, List.getElem?_append_right le_rfl, Nat.sub_self,
    List.getElem?_cons_zero, Option.bind_some]
  simp only [splice_append]

/-- **Insertion** gives one or two trees that hold the entries with the new one among them. -/
theorem insert_spec : ∀ {n : ℕ} {t : Tree n}, t.Proper → t.Sorted → ∀ {ts : List (Tree n)},
    insert e t = some ts →
      ts.flatMap entries = upsertBy Entry.key e t.entries ∧ (∀ t' ∈ ts, t'.Proper) ∧
        (ts.length = 1 ∨ ts.length = 2)
  | 0, t, hp, hs, ts, h => by
    obtain ⟨parts, hdiv, rfl⟩ := Option.map_eq_some_iff.1 h
    obtain ⟨hflat, hne, -, hlen⟩ := divide_eq_some hdiv upsertBy_ne_nil
    refine ⟨by rw [flatMap_leaf, hflat, entries_zero], fun t' ht' => ?_, by rwa [List.length_map]⟩
    obtain ⟨part, hpart, rfl⟩ := List.mem_map.1 ht'
    exact hne part hpart
  | n + 1, t, hp, hs, ts, h => by
    obtain ⟨front, c, back, hsplit, hidx, hfront, hback⟩ := route_split hp hs e.key
    rw [insert_succ hsplit hidx] at h
    obtain ⟨items, hitems, hdiv'⟩ := Option.bind_eq_some_iff.1 h
    obtain ⟨parts, hdiv, rfl⟩ := Option.map_eq_some_iff.1 hdiv'
    have hc : c ∈ t.children := by simp [hsplit]
    obtain ⟨hflat, hproper, hlen⟩ :=
      insert_spec (hp.2 c hc) (SortedChildren.sorted hs hc) hitems
    have hne : items ≠ [] := by rintro rfl; simp at hlen
    obtain ⟨hflat', hne', -, hlen'⟩ := divide_eq_some hdiv (by simp [hne])
    refine ⟨?_, fun t' ht' => ?_, by rwa [List.length_map]⟩
    · rw [flatMap_node, hflat', entries_succ, hsplit, List.flatMap_append, List.flatMap_append,
        List.flatMap_append, List.flatMap_cons, hflat, upsertBy_append_right hfront,
        upsertBy_append_left hback, List.append_assoc]
    · obtain ⟨part, hpart, rfl⟩ := List.mem_map.1 ht'
      refine ⟨hne' part hpart, fun x hx => ?_⟩
      have hx' : x ∈ front ++ items ++ back := by
        rw [← hflat']
        exact List.mem_flatten.2 ⟨part, hpart, hx⟩
      simp only [List.mem_append] at hx'
      rcases hx' with (hx' | hx') | hx'
      · exact hp.2 x (by simp [hsplit, hx'])
      · exact hproper x hx'
      · exact hp.2 x (by simp [hsplit, hx'])

/-! ### When the divisions succeed -/

/-- On every level of the path of the key the rewritten cells fit in a page or have a cut. -/
def PathFits (e : Entry) : {n : ℕ} → Tree n → Prop
  | 0, t => Divisible Entry.size (upsertBy Entry.key e t.cells)
  | _ + 1, t => ∀ c ∈ t.children[t.route e.key]?, PathFits e c ∧ ∀ parts ∈ insert e c,
      Divisible (fun c => separatorSize c.minKey) (splice t.children (t.route e.key) parts)

theorem pathFits_succ {t : Tree (n + 1)} {front back : List (Tree n)} {c : Tree n}
    (hsplit : t.children = front ++ c :: back) (hidx : t.route e.key = front.length) :
    PathFits e t ↔ PathFits e c ∧ ∀ parts ∈ insert e c,
      Divisible (fun c => separatorSize c.minKey) (front ++ parts ++ back) := by
  simp only [PathFits, hsplit, hidx, splice_append, List.getElem?_append_right le_rfl, Nat.sub_self,
    List.getElem?_cons_zero, Option.mem_def, Option.some.injEq, forall_eq']

theorem insert_isSome : ∀ {n : ℕ} {t : Tree n}, t.Proper → t.Sorted →
    ((insert e t).isSome ↔ PathFits e t)
  | 0, t, hp, hs => by rw [insert, Option.isSome_map, divide_isSome]; rfl
  | n + 1, t, hp, hs => by
    obtain ⟨front, c, back, hsplit, hidx, -, -⟩ := route_split hp hs e.key
    have hc : c ∈ t.children := by simp [hsplit]
    have ih := insert_isSome (hp.2 c hc) (SortedChildren.sorted hs hc)
    rw [insert_succ hsplit hidx, pathFits_succ hsplit hidx, ← ih]
    cases insert e c with
    | none => simp
    | some parts => simp only [Option.bind_some, Option.isSome_map, divide_isSome, Option.isSome_some,
        true_and, Option.mem_def, Option.some.injEq, forall_eq']

/-- Wherever a page of children on the path is cut, two children are left on either side. -/
def PairsKept (e : Entry) : {n : ℕ} → Tree n → Prop
  | 0, _ => True
  | _ + 1, t => ∀ c ∈ t.children[t.route e.key]?, PairsKept e c ∧ ∀ parts ∈ insert e c,
      ∀ sizes, sizes = (splice t.children (t.route e.key) parts).map
        (fun c => separatorSize c.minKey) → pageBodyCapacity < sizes.sum →
      ∀ k ∈ splitSizes sizes, 2 ≤ k ∧ k + 2 ≤ sizes.length

theorem pairsKept_succ {t : Tree (n + 1)} {front back parts : List (Tree n)} {c : Tree n}
    (hsplit : t.children = front ++ c :: back) (hidx : t.route e.key = front.length)
    (hparts : insert e c = some parts) :
    PairsKept e t ↔ PairsKept e c ∧
      ∀ sizes, sizes = (front ++ parts ++ back).map (fun c => separatorSize c.minKey) →
        pageBodyCapacity < sizes.sum → ∀ k ∈ splitSizes sizes, 2 ≤ k ∧ k + 2 ≤ sizes.length := by
  simp only [PairsKept, hsplit, hidx, splice_append, List.getElem?_append_right le_rfl, Nat.sub_self,
    List.getElem?_cons_zero, Option.mem_def, Option.some.injEq, forall_eq', hparts]

/-- **Insertion keeps two children** in every internal page exactly when no cut leaves a single
one. -/
theorem insert_wide : ∀ {n : ℕ} {t : Tree n}, t.Proper → t.Sorted → t.Wide →
    ∀ {ts : List (Tree n)}, insert e t = some ts → ((∀ t' ∈ ts, t'.Wide) ↔ PairsKept e t)
  | 0, t, hp, hs, hw, ts, h => by simp [Wide, PairsKept]
  | n + 1, t, hp, hs, hw, ts, h => by
    obtain ⟨front, c, back, hsplit, hidx, -, -⟩ := route_split hp hs e.key
    have hc : c ∈ t.children := by simp [hsplit]
    rw [insert_succ hsplit hidx] at h
    obtain ⟨items, hitems, hdiv'⟩ := Option.bind_eq_some_iff.1 h
    obtain ⟨parts, hdiv, rfl⟩ := Option.map_eq_some_iff.1 hdiv'
    have ih := insert_wide (hp.2 c hc) (SortedChildren.sorted hs hc) (hw.2 c hc) hitems
    obtain ⟨-, -, hlen⟩ := insert_spec (hp.2 c hc) (SortedChildren.sorted hs hc) hitems
    have hlength := hw.1
    rw [hsplit, List.length_append, List.length_cons] at hlength
    have hne : items ≠ [] := by rintro rfl; simp at hlen
    obtain ⟨hflat, -, -, -⟩ := divide_eq_some hdiv (by simp [hne])
    -- Nodes stay wide when their children do and no part has a single child.
    have hwide : (∀ t' ∈ parts.map node, t'.Wide) ↔
        (∀ x ∈ items, x.Wide) ∧ ∀ part ∈ parts, 2 ≤ part.length := by
      have hall : (∀ part ∈ parts, ∀ x ∈ part, x.Wide) ↔ ∀ x ∈ items, x.Wide := by
        rw [← List.forall_mem_flatten, hflat]
        constructor
        · exact fun hx x hxp => hx x (by simp [hxp])
        · intro hx x hxp
          simp only [List.mem_append] at hxp
          rcases hxp with (hxp | hxp) | hxp
          · exact hw.2 x (by simp [hsplit, hxp])
          · exact hx x hxp
          · exact hw.2 x (by simp [hsplit, hxp])
      rw [← hall, List.forall_mem_map]
      exact ⟨fun h => ⟨fun p hp => (h p hp).2, fun p hp => (h p hp).1⟩,
        fun h p hp => ⟨h.2 p hp, h.1 p hp⟩⟩
    rw [hwide, ih, pairsKept_succ hsplit hidx hitems]
    refine and_congr_right fun _ => ?_
    rw [forall_eq]
    unfold divide at hdiv
    split_ifs at hdiv with hfit
    · cases hdiv
      refine iff_of_true (fun part hpart => ?_) fun hlt => absurd hfit (not_le.2 hlt)
      rw [List.mem_singleton.1 hpart, List.length_append, List.length_append]
      omega
    · obtain ⟨k, hk, rfl⟩ := Option.map_eq_some_iff.1 hdiv
      obtain ⟨hk1, hk2, -⟩ := splitSizes_eq_some hk
      rw [List.length_map] at hk2
      simp only [not_le.1 hfit, forall_const, hk, Option.mem_def, Option.some.injEq, forall_eq',
        List.length_map, List.forall_mem_cons, List.length_take, List.length_drop,
        List.not_mem_nil, false_implies, and_true]
      omega

/-! ### Roots -/

namespace Root

/-- The entries under a root. -/
def entries : Root → List Entry
  | none => []
  | some ⟨_, t⟩ => t.entries

def Proper : Root → Prop
  | none => True
  | some ⟨_, t⟩ => t.Proper

def Wide : Root → Prop
  | none => True
  | some ⟨_, t⟩ => t.Wide

def Sorted (r : Root) : Prop := SortedBy Entry.key r.entries

/-- The divisions of an insertion succeed, and so does the growth of the root. -/
def Fits (e : Entry) : Root → Prop
  | none => e.size ≤ pageBodyCapacity
  | some ⟨_, t⟩ => PathFits e t ∧ ∀ a b, insert e t = some [a, b] →
      separatorSize a.minKey + separatorSize b.minKey ≤ pageBodyCapacity

/-- No cut of an insertion leaves a single child on one side. -/
def PairsKept (e : Entry) : Root → Prop
  | none => True
  | some ⟨_, t⟩ => Tree.PairsKept e t

end Root

variable {r : Root} {m : ℕ} {t' : Tree m}

/-- The two ways in which `put` ends on a tree. -/
theorem put_some {t : Tree n} (h : put e (some ⟨n, t⟩) = some ⟨m, t'⟩) :
    (∃ a, insert e t = some [a] ∧ (⟨n, a⟩ : Σ n, Tree n) = ⟨m, t'⟩) ∨
    ∃ a b, insert e t = some [a, b] ∧
      separatorSize a.minKey + separatorSize b.minKey ≤ pageBodyCapacity ∧
      (⟨n + 1, node [a, b]⟩ : Σ n, Tree n) = ⟨m, t'⟩ := by
  obtain ⟨ts, hts, hgrow⟩ := Option.bind_eq_some_iff.1 h
  match ts with
  | [] => cases hgrow
  | [a] => exact .inl ⟨a, hts, Option.some.inj hgrow⟩
  | [a, b] =>
    rw [grow] at hgrow
    split_ifs at hgrow with hfit
    exact .inr ⟨a, b, hts, hfit, Option.some.inj hgrow⟩
  | a :: b :: c :: l => cases hgrow

/-- **The tree after `put`** holds the entries with the new one among them. -/
theorem put_spec (hp : r.Proper) (hs : r.Sorted) (h : put e r = some ⟨m, t'⟩) :
    t'.entries = upsertBy Entry.key e r.entries ∧ t'.Proper := by
  match r with
  | none =>
    unfold put at h
    split_ifs at h
    cases h
    exact ⟨rfl, by simp [Proper]⟩
  | some ⟨n, t⟩ =>
    rcases put_some h with ⟨a, ha, heq⟩ | ⟨a, b, hab, -, heq⟩
    · cases heq
      obtain ⟨hflat, hproper, -⟩ := insert_spec hp hs ha
      rw [List.flatMap_singleton] at hflat
      exact ⟨hflat, hproper _ (by simp)⟩
    · cases heq
      obtain ⟨hflat, hproper, -⟩ := insert_spec hp hs hab
      exact ⟨hflat, by simp, hproper⟩

theorem put_isSome (hp : r.Proper) (hs : r.Sorted) : (put e r).isSome ↔ r.Fits e := by
  match r with
  | none =>
    unfold put
    split_ifs with h
    · exact iff_of_true rfl h
    · exact iff_of_false (by simp) h
  | some ⟨n, t⟩ =>
    rw [Root.Fits, ← insert_isSome hp hs, put]
    cases h : insert e t with
    | none => simp
    | some ts =>
      obtain ⟨-, -, hlen | hlen⟩ := insert_spec hp hs h
      · obtain ⟨a, rfl⟩ := List.length_eq_one_iff.1 hlen
        simp [grow]
      · obtain ⟨a, b, rfl⟩ := List.length_eq_two.1 hlen
        by_cases hfit : separatorSize a.minKey + separatorSize b.minKey ≤ pageBodyCapacity
        · simp only [Option.bind_some, grow, if_pos hfit]
          simpa using hfit
        · simp only [Option.bind_some, grow, if_neg hfit]
          simpa using hfit

/-- **A put keeps two children** in every internal page exactly when no cut leaves a single one. -/
theorem put_wide (hp : r.Proper) (hs : r.Sorted) (hw : r.Wide) (h : put e r = some ⟨m, t'⟩) :
    t'.Wide ↔ r.PairsKept e := by
  match r with
  | none =>
    unfold put at h
    split_ifs at h
    cases h
    simp [Wide, Root.PairsKept]
  | some ⟨n, t⟩ =>
    rcases put_some h with ⟨a, ha, heq⟩ | ⟨a, b, hab, -, heq⟩
    · cases heq
      rw [Root.PairsKept, ← insert_wide hp hs hw ha]
      simp
    · cases heq
      rw [Root.PairsKept, ← insert_wide hp hs hw hab]
      simp [Wide]

end Tree
end DbLab.Btree
