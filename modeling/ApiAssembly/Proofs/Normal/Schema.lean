import ApiAssembly.Normal.Schema
import ApiAssembly.Proofs.Schema.Tree
import Mathlib.Algebra.Order.BigOperators.Group.List
import Mathlib.Algebra.Order.Group.Nat

/-!
# Proofs — Normal — what a second normalization of a tree does

A node is simplified after the trees right below it (`normalChildren`).  Three things can then
happen (`settle_simplify_cases`): its single entry takes its place, it stays as it is, or its
entries are put in order.  None of them adds a node, and the first one takes nodes away.

A tree is *settled* when normalization has nothing left to do at any of its nodes, and a settled
tree is its own normal form (`normalEntry_of_settled`).  A normal form need not be settled.  An
entry of a list of several loses a description or default that repeats its node's; what is left may
do nothing but wrap one entry, which could take its place, and which does so the next time
(`BaresWrapper`).  This is the only reason:

* `normalSlot_normalSlot_iff`: the normal form of a tree is its own normal form exactly when no
  node of the tree bares a wrapper.
-/

namespace ApiAssembly

namespace Schema

/-! ### One node -/

/-- The single entry can take the place of the node. -/
def Collapses (s : Schema) : Prop := ∃ e, s.allOf = [e] ∧ s.isWrapper ∧ s.agrees e

/-- The node with the trees right below it in normal form. -/
def normalChildren (s : Schema) : Schema :=
  { s with
    properties := Keyed.mapValues normalSlot s.properties
    items := s.items.map normalSlot
    allOf := s.allOf.map normalEntry }

/-- A node is simplified after the trees right below it. -/
theorem normalEntry_eq_settle (s : Schema) :
    s.normalEntry = settle (simplify s.normalChildren) := by
  rw [normalEntry_eq, normalize, normalProperties_eq, normalItems_eq, normalEntries_eq]
  rfl

/-- What simplifying a node can do. -/
theorem settle_simplify_cases (s : Schema) :
    (∃ e, s.allOf = [e] ∧ s.isWrapper ∧ s.agrees e ∧ settle (simplify s) = e) ∨
    (¬ s.Collapses ∧ s.allOf.length < 2 ∧ settle (simplify s) = s) ∨
    (¬ s.Collapses ∧ 2 ≤ s.allOf.length ∧
      settle (simplify s) = { s with allOf := s.orderedEntries s.allOf }) := by
  obtain ⟨own, properties, items, allOf⟩ := s
  match allOf with
  | []          => exact .inr (.inl ⟨by simp [Collapses], by simp, rfl⟩)
  | [e]         =>
    cases h : isWrapper ⟨own, properties, items, [e]⟩ && agrees ⟨own, properties, items, [e]⟩ e with
    | true =>
      have hwa := Bool.and_eq_true_iff.mp h
      exact .inl ⟨e, rfl, hwa.1, hwa.2, by simp [simplify, settle, h]⟩
    | false =>
      refine .inr (.inl ⟨?_, by simp, by simp [simplify, settle, h]⟩)
      rintro ⟨e', he, hw, ha⟩
      obtain rfl : e = e' := by simpa using he
      simp [hw, ha] at h
  | e :: f :: r => exact .inr (.inr ⟨by simp [Collapses], by simp, rfl⟩)

/-- A node that does not give way keeps all but its entries. -/
theorem settle_simplify_of_not_collapses {s : Schema} (h : ¬ s.Collapses) :
    (settle (simplify s)).own = s.own ∧ (settle (simplify s)).properties = s.properties ∧
      (settle (simplify s)).items = s.items := by
  rcases settle_simplify_cases s with ⟨e, he, hw, ha, -⟩ | ⟨-, -, hs⟩ | ⟨-, -, hs⟩
  · exact absurd ⟨e, he, hw, ha⟩ h
  · rw [hs]; exact ⟨rfl, rfl, rfl⟩
  · rw [hs]; exact ⟨rfl, rfl, rfl⟩

/-- Whether a node wraps an entry depends on the node itself and on what the entry says. -/
theorem agrees_congr (s : Schema) {e f : Schema} (h : e.own = f.own) : s.agrees e = s.agrees f := by
  simp only [agrees, h]

/-- Whether a node is a wrapper is said by the node itself and the number of its entries. -/
theorem isWrapper_normalChildren (s : Schema) : s.normalChildren.isWrapper = s.isWrapper := by
  simp [isWrapper, normalChildren, Keyed.mapValues]

/-- A wrapper has nothing below it but its entries. -/
theorem below_of_isWrapper {s : Schema} (h : s.isWrapper) :
    s.properties = [] ∧ s.items = none := by
  simp only [isWrapper, Bool.and_eq_true, Option.isNone_iff_eq_none, List.isEmpty_iff] at h
  simp [h]

/-- A single entry is one before and after normalizing it. -/
theorem allOf_normalChildren_eq_singleton {s f : Schema} :
    s.normalChildren.allOf = [f] ↔ ∃ e, s.allOf = [e] ∧ e.normalEntry = f := by
  simp [normalChildren, List.map_eq_cons_iff]

/-- The normal form of a node: that of its single entry, or the node over normal forms. -/
theorem normalEntry_cases (s : Schema) :
    (∃ e, s.allOf = [e] ∧ s.isWrapper ∧ s.normalEntry = e.normalEntry) ∨
    (s.normalEntry.own = s.own ∧ s.normalEntry.properties = s.normalChildren.properties ∧
      s.normalEntry.items = s.normalChildren.items ∧
      ((s.allOf.length < 2 ∧ ¬ s.normalEntry.Collapses ∧
          s.normalEntry.allOf = s.allOf.map normalEntry) ∨
        (2 ≤ s.allOf.length ∧
          s.normalEntry.allOf = s.orderedEntries (s.allOf.map normalEntry)))) := by
  have hl : s.normalChildren.allOf.length = s.allOf.length := List.length_map _
  rw [normalEntry_eq_settle]
  rcases settle_simplify_cases s.normalChildren with ⟨f, hf, hw, -, hs⟩ | ⟨hc, hlt, hs⟩ |
      ⟨-, hle, hs⟩
  · obtain ⟨e, he, rfl⟩ := allOf_normalChildren_eq_singleton.mp hf
    exact .inl ⟨e, he, s.isWrapper_normalChildren ▸ hw, hs⟩
  · rw [hs]
    exact .inr ⟨rfl, rfl, rfl, .inl ⟨hl ▸ hlt, hc, rfl⟩⟩
  · rw [hs]
    exact .inr ⟨rfl, rfl, rfl, .inr ⟨hl ▸ hle, rfl⟩⟩

/-! ### Slots -/

/-- A schema that says something is left as it is. -/
theorem fill_of_not_isEmpty {s : Schema} (h : ¬ s.isEmpty) : fill s = s := by
  rw [fill, if_neg h]

/-- A filled schema says something. -/
theorem isEmpty_fill (s : Schema) : ¬ (fill s).isEmpty := by
  rw [fill]
  split
  · simp [isEmpty]
  · assumption

/-! ### Entries in order -/

theorem hasReference_withoutRepeats (s e : Schema) :
    (s.withoutRepeats e).hasReference = e.hasReference := rfl

/-- What was cleared is not there to be cleared again. -/
theorem withoutRepeats_withoutRepeats (s e : Schema) :
    s.withoutRepeats (s.withoutRepeats e) = s.withoutRepeats e := by
  simp only [withoutRepeats]
  congr 2
  · split <;> simp_all
  · split <;> simp_all

/-- Entries in order are left in their order. -/
theorem orderedEntries_orderedEntries (s : Schema) (es : List Schema) :
    s.orderedEntries (s.orderedEntries es) = s.orderedEntries es := by
  simp only [orderedEntries, List.filter_append, List.filter_map, List.filter_filter,
    Function.comp_def, hasReference_withoutRepeats, List.map_append, List.map_map,
    withoutRepeats_withoutRepeats, Bool.and_self]
  simp

/-- The order of entries depends on what the node says, and on nothing below it. -/
theorem orderedEntries_congr {s t : Schema} (h : s.own = t.own) (es : List Schema) :
    s.orderedEntries es = t.orderedEntries es := by
  have hw : s.withoutRepeats = t.withoutRepeats := funext fun e => by simp only [withoutRepeats, h]
  rw [orderedEntries, orderedEntries, hw]

theorem length_orderedEntries (s : Schema) (es : List Schema) :
    (s.orderedEntries es).length = es.length := by
  rw [orderedEntries, List.length_append, List.length_map]
  exact (List.length_eq_length_filter_add _).symm

/-- The entries with a reference stay as they are, and the others lose what they repeat. -/
theorem mem_orderedEntries {s x : Schema} {es : List Schema} :
    x ∈ s.orderedEntries es ↔ (x ∈ es ∧ x.hasReference) ∨
      ∃ e ∈ es, ¬ e.hasReference ∧ s.withoutRepeats e = x := by
  simp [orderedEntries, and_assoc]

/-- An entry loses nothing exactly when what it has in common with its node is not set. -/
theorem withoutRepeats_eq_self_iff {s e : Schema} :
    s.withoutRepeats e = e ↔
      (e.own.description = s.own.description → e.own.description = none) ∧
      (sameValue e.own.default s.own.default → e.own.default = none) := by
  obtain ⟨⟨_, _, _, _, description, default, _, _⟩, _, _, _⟩ := e
  simp only [withoutRepeats, mk.injEq, Keywords.mk.injEq, true_and, and_true, beq_iff_eq,
    ite_eq_right_iff, eq_comm (a := none)]

/-- An entry that repeats nothing of a node repeats nothing of one that says less. -/
theorem withoutRepeats_of_less {s y e : Schema} (h : y.withoutRepeats e = e) :
    (s.withoutRepeats y).withoutRepeats e = e := by
  obtain ⟨hdesc, hdef⟩ := withoutRepeats_eq_self_iff.mp h
  refine withoutRepeats_eq_self_iff.mpr ⟨fun he => ?_, fun he => ?_⟩
  · simp only [withoutRepeats] at he
    split at he
    · exact he
    · exact hdesc he
  · simp only [withoutRepeats] at he
    split at he
    -- The default of the node is gone, and no default that is there equals one that is not.
    · cases hd : e.own.default with
      | none => rfl
      | some j => simp [hd, sameValue] at he
    · exact hdef he

theorem withoutRepeats_of_mem {s e : Schema} {es : List Schema} (h : s.orderedEntries es = es)
    (he : e ∈ es) (hr : ¬ e.hasReference) : s.withoutRepeats e = e := by
  rw [← h] at he
  rcases mem_orderedEntries.mp he with ⟨-, hr'⟩ | ⟨f, -, -, rfl⟩
  · exact absurd hr' hr
  · exact withoutRepeats_withoutRepeats s f

/-- Entries that are in order stay so under a node that says less. -/
theorem orderedEntries_of_less (s : Schema) {y : Schema} {es : List Schema}
    (h : y.orderedEntries es = es) : (s.withoutRepeats y).orderedEntries es = es := by
  have hcongr : (s.withoutRepeats y).orderedEntries es = y.orderedEntries es := by
    refine congrArg (es.filter hasReference ++ ·) (List.map_congr_left fun e he => ?_)
    obtain ⟨hm, hr⟩ := List.mem_filter.mp he
    have hy : y.withoutRepeats e = e := withoutRepeats_of_mem h hm (by simpa using hr)
    rw [withoutRepeats_of_less hy, hy]
  rw [hcongr, h]

/-! ### Sizes -/

theorem size_withoutRepeats (s e : Schema) : (s.withoutRepeats e).size = e.size := by
  rw [size_eq, size_eq]; rfl

theorem size_fill (s : Schema) : (fill s).size = s.size := by
  rw [fill]
  split
  · rw [size_eq, size_eq]
  · rfl

/-- Putting entries in order takes no node away. -/
theorem sum_size_orderedEntries (s : Schema) (es : List Schema) :
    ((s.orderedEntries es).map fun e => e.size).sum = (es.map fun e => e.size).sum := by
  rw [orderedEntries, List.map_append, List.map_map, Function.comp_def]
  simp only [size_withoutRepeats]
  rw [← List.map_append]
  exact ((List.filter_append_perm hasReference es).map _).sum_eq

/-- A single entry that takes the place of its node makes the tree smaller. -/
theorem size_settle_simplify_lt {s : Schema} (h : s.Collapses) :
    (settle (simplify s)).size < s.size := by
  rcases settle_simplify_cases s with ⟨e, he, -, -, hs⟩ | ⟨hn, -⟩ | ⟨hn, -⟩
  · rw [hs, s.size_eq, he, List.map_singleton, List.sum_singleton]; omega
  · exact absurd h hn
  · exact absurd h hn

/-- Nothing else takes a node away. -/
theorem size_settle_simplify {s : Schema} (h : ¬ s.Collapses) :
    (settle (simplify s)).size = s.size := by
  rcases settle_simplify_cases s with ⟨e, he, hw, ha, -⟩ | ⟨-, -, hs⟩ | ⟨-, -, hs⟩
  · exact absurd ⟨e, he, hw, ha⟩ h
  · rw [hs]
  · rw [hs, size_eq, sum_size_orderedEntries, s.size_eq]

theorem size_settle_simplify_le (s : Schema) : (settle (simplify s)).size ≤ s.size := by
  by_cases h : s.Collapses
  · exact (size_settle_simplify_lt h).le
  · exact (size_settle_simplify h).le

/-- A node above normalized trees has their sizes, and one more for itself. -/
theorem size_normalChildren (s : Schema) :
    s.normalChildren.size = 1 + (s.properties.map fun p => p.2.normalSlot.size).sum +
      (s.items.toList.map fun t => t.normalSlot.size).sum +
      (s.allOf.map fun e => e.normalEntry.size).sum := by
  rw [size_eq]
  simp only [normalChildren, Keyed.mapValues, List.map_map, Function.comp_def]
  cases s.items <;> rfl

theorem size_normalChildren_le_of {s : Schema}
    (hp : ∀ p ∈ s.properties, p.2.normalEntry.size ≤ p.2.size)
    (hi : ∀ t ∈ s.items, t.normalEntry.size ≤ t.size)
    (ha : ∀ e ∈ s.allOf, e.normalEntry.size ≤ e.size) : s.normalChildren.size ≤ s.size := by
  rw [size_normalChildren, size_eq]
  have h₁ := List.sum_le_sum (f := fun p => p.2.normalSlot.size) (g := fun p => p.2.size)
    fun p hpm => (size_fill _).trans_le (hp p hpm)
  have h₂ := List.sum_le_sum (l := s.items.toList) (f := fun t => t.normalSlot.size)
    (g := fun t => t.size) fun t ht => (size_fill _).trans_le (hi t (Option.mem_toList.mp ht))
  have h₃ := List.sum_le_sum (f := fun e => e.normalEntry.size) (g := fun e => e.size)
    fun e he => ha e he
  omega

/-- Normalizing adds no node, by induction on the tree. -/
theorem size_normalEntry_le (s : Schema) : s.normalEntry.size ≤ s.size := by
  induction s using induct with
  | node s hp hi ha =>
    rw [normalEntry_eq_settle]
    exact (size_settle_simplify_le _).trans (size_normalChildren_le_of hp hi ha)

theorem size_normalSlot_le (s : Schema) : s.normalSlot.size ≤ s.size :=
  (size_fill _).trans_le s.size_normalEntry_le

theorem size_normalChildren_le (s : Schema) : s.normalChildren.size ≤ s.size :=
  size_normalChildren_le_of (fun p _ => p.2.size_normalEntry_le)
    (fun t _ => t.size_normalEntry_le) fun e _ => e.size_normalEntry_le

/-- A tree right below that shrinks makes the node smaller. -/
theorem size_normalChildren_lt {s : Schema}
    (h : (∃ p ∈ s.properties, p.2.normalSlot.size < p.2.size) ∨
      (∃ t ∈ s.items, t.normalSlot.size < t.size) ∨
      ∃ e ∈ s.allOf, e.normalEntry.size < e.size) : s.normalChildren.size < s.size := by
  rw [size_normalChildren, size_eq]
  have hp := List.sum_le_sum (l := s.properties) (f := fun p => p.2.normalSlot.size)
    (g := fun p => p.2.size) fun p _ => p.2.size_normalSlot_le
  have hi := List.sum_le_sum (l := s.items.toList) (f := fun t => t.normalSlot.size)
    (g := fun t => t.size) fun t _ => t.size_normalSlot_le
  have ha := List.sum_le_sum (l := s.allOf) (f := fun e => e.normalEntry.size)
    (g := fun e => e.size) fun e _ => e.size_normalEntry_le
  rcases h with h | ⟨t, ht, hlt⟩ | h
  · have := List.sum_lt_sum (fun p : String × Schema => p.2.normalSlot.size) (fun p => p.2.size)
      (fun p _ => p.2.size_normalSlot_le) h
    omega
  · have := List.sum_lt_sum (fun t : Schema => t.normalSlot.size) (fun t => t.size)
      (fun t _ => t.size_normalSlot_le) ⟨t, Option.mem_toList.mpr ht, hlt⟩
    omega
  · have := List.sum_lt_sum (fun e : Schema => e.normalEntry.size) (fun e => e.size)
      (fun e _ => e.size_normalEntry_le) h
    omega

/-- A tree that keeps its size keeps what its root says. -/
theorem own_normalEntry {s : Schema} (h : s.normalEntry.size = s.size) :
    s.normalEntry.own = s.own := by
  rw [normalEntry_eq_settle] at h ⊢
  have hc : ¬ s.normalChildren.Collapses := fun hc => by
    have := size_settle_simplify_lt hc
    have := s.size_normalChildren_le
    omega
  exact (settle_simplify_of_not_collapses hc).1

/-- Whether a node collapses is decided before its children change, unless one of them shrinks. -/
theorem collapses_normalChildren_iff {s : Schema} (h : s.normalChildren.size = s.size) :
    s.normalChildren.Collapses ↔ s.Collapses := by
  have keep : ∀ e ∈ s.allOf, e.normalEntry.own = e.own := fun e he => by
    refine own_normalEntry (le_antisymm e.size_normalEntry_le (not_lt.mp fun hlt => ?_))
    exact (size_normalChildren_lt (.inr (.inr ⟨e, he, hlt⟩))).ne h
  constructor
  · rintro ⟨f, hf, hw, ha⟩
    obtain ⟨e, he, rfl⟩ := allOf_normalChildren_eq_singleton.mp hf
    refine ⟨e, he, s.isWrapper_normalChildren ▸ hw, ?_⟩
    rw [← s.agrees_congr (keep e (by simp [he]))]
    exact ha
  · rintro ⟨e, he, hw, ha⟩
    refine ⟨e.normalEntry, by simp [normalChildren, he], s.isWrapper_normalChildren ▸ hw, ?_⟩
    rw [← s.agrees_congr (keep e (by simp [he]))] at ha
    exact ha

/-- Where a node gives way, the tree gets smaller. -/
theorem size_normalEntry_lt_of_collapses {s : Schema} (h : s.Collapses) :
    s.normalEntry.size < s.size := by
  rw [normalEntry_eq_settle]
  rcases s.size_normalChildren_le.lt_or_eq with hlt | heq
  · exact (size_settle_simplify_le _).trans_lt hlt
  · exact heq ▸ size_settle_simplify_lt ((collapses_normalChildren_iff heq).mpr h)

/-- A node that does not collapse shrinks through its children only. -/
theorem size_normalChildren_lt_of_not_collapses {s : Schema} (h : ¬ s.Collapses)
    (hlt : s.normalEntry.size < s.size) : s.normalChildren.size < s.size := by
  refine s.size_normalChildren_le.lt_of_ne fun heq => ?_
  rw [normalEntry_eq_settle,
    size_settle_simplify (mt (collapses_normalChildren_iff heq).mp h), heq] at hlt
  exact lt_irrefl _ hlt

/-! ### Bared wrappers -/

/-- Of several entries one that is no reference loses a repeat, and what is left of it could make
place for its own single entry. -/
def BaresWrapper (s : Schema) : Prop :=
  2 ≤ s.allOf.length ∧ ∃ e ∈ s.allOf, ¬ e.normalEntry.hasReference ∧
    (s.withoutRepeats e.normalEntry).Collapses

/-- A normal form does not collapse at its root. -/
theorem not_collapses_normalEntry (s : Schema) : ¬ s.normalEntry.Collapses := by
  induction s using induct with
  | node s hp hi ha =>
    rcases s.normalEntry_cases with ⟨e, he, -, hs⟩ | ⟨-, -, -, ⟨-, hc, -⟩ | ⟨hl, hs⟩⟩
    · rw [hs]
      exact ha e (by simp [he])
    · exact hc
    · rintro ⟨e, he, -, -⟩
      have := congrArg List.length (hs.symm.trans he)
      simp only [length_orderedEntries, List.length_map, List.length_singleton] at this
      omega

/-- An empty schema has nothing below it. -/
theorem size_of_isEmpty {s : Schema} (h : s.isEmpty) : s.size = 1 := by
  simp only [isEmpty, Bool.and_eq_true, Option.isNone_iff_eq_none, List.isEmpty_iff] at h
  rw [size_eq]
  simp [h]

theorem size_normalSlot_normalSlot_lt {s : Schema}
    (h : s.normalEntry.normalEntry.size < s.normalEntry.size) :
    s.normalSlot.normalSlot.size < s.normalSlot.size := by
  have hpos := s.normalEntry.normalEntry.size_pos
  have hne : ¬ s.normalEntry.isEmpty := fun he => by
    have := size_of_isEmpty he
    omega
  have hs : s.normalSlot = s.normalEntry := fill_of_not_isEmpty hne
  rw [hs, normalSlot, size_fill]
  exact h

/-- An entry without its repeats shrinks when it did so with them, or when it now collapses. -/
theorem size_normalEntry_withoutRepeats_lt (s e : Schema)
    (h : e.normalEntry.normalEntry.size < e.normalEntry.size ∨
      (s.withoutRepeats e.normalEntry).Collapses) :
    (s.withoutRepeats e.normalEntry).normalEntry.size <
      (s.withoutRepeats e.normalEntry).size := by
  rcases h with h | h
  · have hc : (s.withoutRepeats e.normalEntry).normalChildren.size =
        e.normalEntry.normalChildren.size := by rw [size_normalChildren, size_normalChildren]; rfl
    rw [normalEntry_eq_settle]
    refine (size_settle_simplify_le _).trans_lt ?_
    rw [hc, size_withoutRepeats]
    exact size_normalChildren_lt_of_not_collapses e.not_collapses_normalEntry h
  · exact size_normalEntry_lt_of_collapses h

/-- An entry that gets smaller the second time is found among those put in order. -/
theorem exists_mem_orderedEntries_size_lt {s e : Schema} {es : List Schema} (he : e ∈ es)
    (h : e.normalEntry.normalEntry.size < e.normalEntry.size ∨
      ¬ e.normalEntry.hasReference ∧ (s.withoutRepeats e.normalEntry).Collapses) :
    ∃ x ∈ s.orderedEntries (es.map normalEntry), x.normalEntry.size < x.size := by
  have hm : e.normalEntry ∈ es.map normalEntry := List.mem_map_of_mem he
  by_cases hr : e.normalEntry.hasReference
  · exact ⟨_, mem_orderedEntries.mpr (.inl ⟨hm, hr⟩), h.resolve_right fun hc => hc.1 hr⟩
  · exact ⟨_, mem_orderedEntries.mpr (.inr ⟨_, hm, hr, rfl⟩),
      size_normalEntry_withoutRepeats_lt s e (h.imp_right And.right)⟩

/-- **A bared wrapper goes the next time.**  Where a node of a tree bares a wrapper, normalizing
the normal form takes nodes away. -/
theorem size_normalEntry_normalEntry_lt {s : Schema} (h : ∃ n ∈ s.nodes, n.BaresWrapper) :
    s.normalEntry.normalEntry.size < s.normalEntry.size := by
  induction s using induct with
  | node s hp hi ha =>
    obtain ⟨n, hn, hb⟩ := h
    rcases s.normalEntry_cases with ⟨e, he, hw, hs⟩ | ⟨-, hps, his, has⟩
    · rw [hs]
      refine ha e (by simp [he]) ⟨n, ?_, hb⟩
      -- A wrapper has nothing below it but its entry, and one entry is not enough to bare another.
      simp only [isWrapper, Bool.and_eq_true, List.isEmpty_iff, Option.isNone_iff_eq_none] at hw
      rcases mem_nodes_iff.mp hn with rfl | ⟨p, hpm, -⟩ | ⟨t, ht, -⟩ | ⟨f, hf, hn⟩
      · have := hb.1
        simp [he] at this
      · simp [hw] at hpm
      · simp [hw] at ht
      · obtain rfl : f = e := by simpa [he] using hf
        exact hn
    -- The node stays, and it shrinks with any tree right below it.
    · rw [normalEntry_eq_settle s.normalEntry]
      refine (size_settle_simplify_le _).trans_lt (size_normalChildren_lt ?_)
      rcases mem_nodes_iff.mp hn with rfl | ⟨p, hpm, hn⟩ | ⟨t, ht, hn⟩ | ⟨e, he, hn⟩
      · obtain ⟨hl, e, he, hr, hc⟩ := hb
        rcases has with ⟨hlt, -⟩ | ⟨-, has⟩
        · omega
        · rw [has]
          exact .inr (.inr (exists_mem_orderedEntries_size_lt he (.inr ⟨hr, hc⟩)))
      · refine .inl ⟨(p.1, p.2.normalSlot), ?_,
            size_normalSlot_normalSlot_lt (hp p hpm ⟨n, hn, hb⟩)⟩
        rw [hps]
        exact List.mem_map_of_mem hpm
      · refine .inr (.inl ⟨t.normalSlot, ?_, size_normalSlot_normalSlot_lt (hi t ht ⟨n, hn, hb⟩)⟩)
        rw [his]
        exact Option.mem_map_of_mem _ ht
      · have hlt := ha e he ⟨n, hn, hb⟩
        rcases has with ⟨-, -, has⟩ | ⟨-, has⟩
        · rw [has]
          exact .inr (.inr ⟨e.normalEntry, List.mem_map_of_mem he, hlt⟩)
        · rw [has]
          exact .inr (.inr (exists_mem_orderedEntries_size_lt he (.inl hlt)))

/-! ### Settled trees -/

/-- Normalization has nothing to do at a node: it does not collapse, several entries are in order,
and its slots say something. -/
structure SettledHere (s : Schema) : Prop where
  stays : ¬ s.Collapses
  ordered : 2 ≤ s.allOf.length → s.orderedEntries s.allOf = s.allOf
  properties : ∀ p ∈ s.properties, ¬ p.2.isEmpty
  items : ∀ t ∈ s.items, ¬ t.isEmpty

/-- Normalization has nothing to do anywhere in a tree. -/
def Settled (s : Schema) : Prop := ∀ n ∈ s.nodes, n.SettledHere

/-- A settled tree is its own normal form, by induction on the tree. -/
theorem normalEntry_of_settled {s : Schema} (h : s.Settled) : s.normalEntry = s := by
  induction s using induct with
  | node s hp hi ha =>
    obtain ⟨hs, hps, his, has⟩ := forall_nodes_iff.mp h
    have hc : s.normalChildren = s := by
      have h₁ : Keyed.mapValues normalSlot s.properties = s.properties := by
        refine (List.map_congr_left fun p hpm => ?_).trans (List.map_id _)
        rw [normalSlot, hp p hpm (hps p hpm), fill_of_not_isEmpty (hs.properties p hpm)]; rfl
      have h₂ : s.items.map normalSlot = s.items := by
        cases hit : s.items with
        | none => rfl
        | some t =>
          rw [Option.map_some, normalSlot, hi t hit (his t hit),
            fill_of_not_isEmpty (hs.items t hit)]
      have h₃ : s.allOf.map normalEntry = s.allOf :=
        (List.map_congr_left fun e he => ha e he (has e he)).trans (List.map_id _)
      rw [normalChildren, h₁, h₂, h₃]
      cases s; rfl
    -- Nothing changes below the node, so it is simplified as it stands.
    rw [normalEntry_eq_settle, hc]
    rcases s.settle_simplify_cases with ⟨e, he, hw, hag, -⟩ | ⟨-, -, hs'⟩ | ⟨-, hl, hs'⟩
    · exact absurd ⟨e, he, hw, hag⟩ hs.stays
    · exact hs'
    · rw [hs', hs.ordered hl]
      cases s; rfl

/-- An entry of a settled tree stays settled without its repeats, unless that makes it collapse. -/
theorem settled_withoutRepeats {s y : Schema} (h : y.Settled)
    (hc : ¬ (s.withoutRepeats y).Collapses) : (s.withoutRepeats y).Settled := by
  obtain ⟨hy, hps, his, has⟩ := forall_nodes_iff.mp h
  exact forall_nodes_iff.mpr ⟨⟨hc, fun hl => orderedEntries_of_less s (hy.ordered hl),
    hy.properties, hy.items⟩, hps, his, has⟩

/-- Filling a settled tree keeps it settled. -/
theorem settled_fill {s : Schema} (h : s.Settled) : (fill s).Settled := by
  rw [fill]
  split
  case isFalse => exact h
  case isTrue he =>
    obtain ⟨hs, hps, his, has⟩ := forall_nodes_iff.mp h
    have hnil : s.allOf = [] := by
      simp only [isEmpty, Bool.and_eq_true, List.isEmpty_iff] at he
      exact he.1.1.2
    refine forall_nodes_iff.mpr ⟨⟨?_, ?_, hs.properties, hs.items⟩, hps, his, has⟩
    · rintro ⟨e, hse, -⟩
      exact List.cons_ne_nil _ _ (hse.symm.trans hnil)
    · intro hl
      simp [hnil] at hl

/-- **Without a bared wrapper a normal form is settled.** -/
theorem settled_normalEntry {s : Schema} (h : ∀ n ∈ s.nodes, ¬ n.BaresWrapper) :
    s.normalEntry.Settled := by
  induction s using induct with
  | node s hp hi ha =>
    obtain ⟨hb, hps, his, has⟩ := forall_nodes_iff.mp h
    rcases s.normalEntry_cases with ⟨e, he, -, hs⟩ | ⟨ho, hps', his', has'⟩
    · rw [hs]
      exact ha e (by simp [he]) (has e (by simp [he]))
    -- Every entry is the normal form of one that was there, or such a form without its repeats.
    have entries : ∀ x ∈ s.normalEntry.allOf, x.Settled := by
      intro x hx
      rcases has' with ⟨-, -, has'⟩ | ⟨hl, has'⟩
      · obtain ⟨e, he, rfl⟩ := List.mem_map.mp (has' ▸ hx)
        exact ha e he (has e he)
      · rw [has'] at hx
        rcases mem_orderedEntries.mp hx with ⟨hx, -⟩ | ⟨y, hy, hr, rfl⟩
        · obtain ⟨e, he, rfl⟩ := List.mem_map.mp hx
          exact ha e he (has e he)
        · obtain ⟨e, he, rfl⟩ := List.mem_map.mp hy
          exact settled_withoutRepeats (ha e he (has e he)) fun hc => hb ⟨hl, e, he, hr, hc⟩
    have ordered : 2 ≤ s.normalEntry.allOf.length →
        s.normalEntry.orderedEntries s.normalEntry.allOf = s.normalEntry.allOf := by
      intro hl
      rcases has' with ⟨hlt, -, has'⟩ | ⟨-, has'⟩
      · rw [has', List.length_map] at hl
        omega
      · rw [has', orderedEntries_congr ho, orderedEntries_orderedEntries]
    refine forall_nodes_iff.mpr
      ⟨⟨s.not_collapses_normalEntry, ordered, ?_, ?_⟩, ?_, ?_, entries⟩
    · intro p hpm
      obtain ⟨q, -, rfl⟩ := List.mem_map.mp (hps' ▸ hpm)
      exact isEmpty_fill _
    · intro t ht
      obtain ⟨u, -, rfl⟩ := Option.map_eq_some_iff.mp (his' ▸ ht)
      exact isEmpty_fill _
    · intro p hpm
      obtain ⟨q, hq, rfl⟩ := List.mem_map.mp (hps' ▸ hpm)
      exact settled_fill (hp q hq (hps q hq))
    · intro t ht
      obtain ⟨u, hu, rfl⟩ := Option.map_eq_some_iff.mp (his' ▸ ht)
      exact settled_fill (hi u hu (his u hu))

/-- **The second normalization of a tree.**  The normal form of a tree is its own normal form
exactly when no node of the tree bares a wrapper. -/
theorem normalSlot_normalSlot_iff (s : Schema) :
    s.normalSlot.normalSlot = s.normalSlot ↔ ∀ n ∈ s.nodes, ¬ n.BaresWrapper := by
  constructor
  · intro h n hn hb
    -- A tree that gets smaller is not the same.
    have := size_normalSlot_normalSlot_lt (size_normalEntry_normalEntry_lt ⟨n, hn, hb⟩)
    rw [h] at this
    exact lt_irrefl _ this
  · intro h
    have hs : s.normalSlot.Settled := settled_fill (settled_normalEntry h)
    rw [normalSlot, normalEntry_of_settled hs]
    exact fill_of_not_isEmpty (isEmpty_fill _)

end Schema

end ApiAssembly
