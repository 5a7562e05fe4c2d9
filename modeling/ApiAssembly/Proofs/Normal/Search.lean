import ApiAssembly.Normal.Unused
import Mathlib.Data.List.Basic
import Mathlib.Order.Bounds.Basic

/-!
# Proofs — Normal — the search ends at the least set of names

A set of names *holds the used ones* when it has those that the rest of the document refers to and,
with a name, those that the schema of the name refers to (`HoldsUsed`).

A step of a search takes the next pending name away and adds, to what is reached and to what is
pending alike, the names that are new (`mem_reached_step_iff`, `mem_pending_step_iff`).  Two facts
follow, both from one step and then along the run.

* What is still to do, the names not reached and those pending, gets less with every step
  (`toDo_step_lt`), so the search is over after as many steps as there are schemas
  (`pending_run`).
* A reached name is in every set that holds the used ones, and the schemas of the reached names
  that are no longer pending refer to reached names only (`Search.Invariant`).  When nothing is
  pending, the reached names are therefore the least such set (`isLeast_reached_run`).
-/

namespace ApiAssembly

/-- A set of names that has those that a text refers to and, with a name, those that its schema
refers to. -/
structure HoldsUsed (schemas : Keyed Schema) (outside : List Char) (R : Set String) : Prop where
  outside {n : String} (hk : n ∈ schemas.keys) (hr : refersTo outside n) : n ∈ R
  schema {m n : String} {s : Schema} (hm : m ∈ R) (hs : (m, s) ∈ schemas) (hk : n ∈ schemas.keys)
    (hr : refersTo s.toJson.chars n) : n ∈ R

namespace Search

variable {schemas : Keyed Schema} {outside : List Char} {texts : List (List Char)}
  {s : Search} {m n : String}

/-! ### What one step reaches -/

/-- A new name that a text refers to is reached, and is pending. -/
theorem reach_of_new (hnew : n ∉ s.reached) (hr : ∃ t ∈ texts, refersTo t n) :
    reach texts s n = { reached := s.reached ++ [n], pending := n :: s.pending } := by
  rw [reach, if_pos]
  simpa [hnew] using hr

/-- A name that was reached, or that no text refers to, changes nothing. -/
theorem reach_of_old (h : n ∉ s.reached → ¬ ∃ t ∈ texts, refersTo t n) : reach texts s n = s := by
  rw [reach, if_neg]
  simpa using h

theorem mem_reached_reach_iff :
    m ∈ (reach texts s n).reached ↔ m ∈ s.reached ∨ m = n ∧ ∃ t ∈ texts, refersTo t n := by
  by_cases h : n ∉ s.reached ∧ ∃ t ∈ texts, refersTo t n
  · simp [reach_of_new h.1 h.2, h.2]
  · rw [reach_of_old (not_and.mp h), or_iff_left_of_imp]
    rintro ⟨rfl, hr⟩
    exact not_not.mp fun hnew => h ⟨hnew, hr⟩

theorem mem_pending_reach_iff :
    m ∈ (reach texts s n).pending ↔
      m ∈ s.pending ∨ m = n ∧ n ∉ s.reached ∧ ∃ t ∈ texts, refersTo t n := by
  by_cases h : n ∉ s.reached ∧ ∃ t ∈ texts, refersTo t n
  · simp [reach_of_new h.1 h.2, h, or_comm]
  · simp [reach_of_old (not_and.mp h), h]

/-- Of many names those are reached that the texts refer to. -/
theorem mem_reached_foldl_iff {names : List String} :
    m ∈ (names.foldl (reach texts) s).reached ↔
      m ∈ s.reached ∨ m ∈ names ∧ ∃ t ∈ texts, refersTo t m := by
  induction names generalizing s with
  | nil => simp
  | cons n names ih =>
    rw [List.foldl_cons, ih, mem_reached_reach_iff, List.mem_cons, or_assoc, or_and_right]
    refine or_congr_right (or_congr_left (and_congr_right ?_))
    rintro rfl
    rfl

/-- Of many names those become pending that are new and that the texts refer to. -/
theorem mem_pending_foldl_iff {names : List String} :
    m ∈ (names.foldl (reach texts) s).pending ↔
      m ∈ s.pending ∨ m ∈ names ∧ m ∉ s.reached ∧ ∃ t ∈ texts, refersTo t m := by
  induction names generalizing s with
  | nil => simp
  | cons n names ih =>
    rw [List.foldl_cons, ih, mem_pending_reach_iff, mem_reached_reach_iff, List.mem_cons]
    by_cases hmn : m = n
    · subst hmn
      grind
    · simp [hmn]

/-- The texts of a name are what is written of its schemas. -/
theorem exists_mem_textsOf_iff :
    (∃ t ∈ textsOf schemas m, refersTo t n) ↔
      ∃ s, (m, s) ∈ schemas ∧ refersTo s.toJson.chars n := by
  constructor
  · rintro ⟨t, ht, hr⟩
    obtain ⟨⟨k, s⟩, he, rfl⟩ := List.mem_map.mp ht
    obtain ⟨hs, hk⟩ := List.mem_filter.mp he
    obtain rfl : k = m := beq_iff_eq.mp hk
    exact ⟨s, hs, hr⟩
  · rintro ⟨s, hs, hr⟩
    exact ⟨_, List.mem_map.mpr ⟨_, List.mem_filter.mpr ⟨hs, beq_self_eq_true m⟩, rfl⟩, hr⟩

/-- Without a pending name there is nothing to do. -/
theorem step_of_pending_nil (h : s.pending = []) : step schemas s = s := by
  rw [step, h]

theorem step_of_pending_cons {rest : List String} (h : s.pending = m :: rest) :
    step schemas s =
      schemas.keys.foldl (reach (textsOf schemas m)) { s with pending := rest } := by
  rw [step, h]

/-- A step reaches the names that the schema of the next name refers to. -/
theorem mem_reached_step_iff {rest : List String} (h : s.pending = m :: rest) :
    n ∈ (step schemas s).reached ↔ n ∈ s.reached ∨
      n ∈ schemas.keys ∧ ∃ e, (m, e) ∈ schemas ∧ refersTo e.toJson.chars n := by
  rw [step_of_pending_cons h, mem_reached_foldl_iff, exists_mem_textsOf_iff]

/-- A step leaves pending what was, and what it has reached. -/
theorem mem_pending_step_iff {rest : List String} (h : s.pending = m :: rest) :
    n ∈ (step schemas s).pending ↔ n ∈ rest ∨
      n ∈ schemas.keys ∧ n ∉ s.reached ∧
        ∃ e, (m, e) ∈ schemas ∧ refersTo e.toJson.chars n := by
  rw [step_of_pending_cons h, mem_pending_foldl_iff, exists_mem_textsOf_iff]

/-! ### The search ends -/

/-- The names that a search has not reached. -/
def unreached (schemas : Keyed Schema) (s : Search) : List String :=
  schemas.keys.filter fun n => n ∉ s.reached

/-- How much a search has still to do: the names that are not reached, and those pending. -/
def toDo (schemas : Keyed Schema) (s : Search) : Nat :=
  (unreached schemas s).length + s.pending.length

/-- At the start all schemas are still to do. -/
theorem toDo_start : toDo schemas (start schemas outside) = schemas.length := by
  have hnew : unreached schemas (start schemas outside) =
      schemas.keys.filter fun n => !refersTo outside n :=
    List.filter_congr fun n hn => by simp [start, hn]
  have hkeys : schemas.keys.length = schemas.length := List.length_map _
  rw [toDo, hnew, start, List.length_reverse, Nat.add_comm, ← hkeys]
  exact (List.length_eq_length_filter_add (refersTo outside)).symm

/-- A name that is reached is no longer among those that are not. -/
theorem length_unreached_reach (hk : n ∈ schemas.keys) (hnew : n ∉ s.reached)
    (hr : ∃ t ∈ texts, refersTo t n) :
    (unreached schemas (reach texts s n)).length < (unreached schemas s).length := by
  have hrest : unreached schemas (reach texts s n) =
      (unreached schemas s).filter fun m => m ≠ n := by
    rw [unreached, unreached, reach_of_new hnew hr, List.filter_filter]
    exact List.filter_congr fun m _ => by simp [not_or, and_comm]
  rw [hrest, List.length_filter_lt_length_iff_exists]
  exact ⟨n, List.mem_filter.mpr ⟨hk, by simpa using hnew⟩, by simp⟩

/-- A name that is reached is one less to reach, and one more pending. -/
theorem toDo_reach_le (hk : n ∈ schemas.keys) :
    toDo schemas (reach texts s n) ≤ toDo schemas s := by
  by_cases h : n ∉ s.reached ∧ ∃ t ∈ texts, refersTo t n
  · have hfewer := length_unreached_reach hk h.1 h.2
    have hmore : (reach texts s n).pending.length = s.pending.length + 1 := by
      rw [reach_of_new h.1 h.2, List.length_cons]
    rw [toDo, toDo]
    omega
  · rw [reach_of_old (not_and.mp h)]

/-- Reaching names makes no more pending than it takes from what is not reached. -/
theorem toDo_foldl_le {names : List String} (h : ∀ n ∈ names, n ∈ schemas.keys) :
    toDo schemas (names.foldl (reach texts) s) ≤ toDo schemas s := by
  induction names generalizing s with
  | nil => exact Nat.le_refl _
  | cons n names ih =>
    obtain ⟨hn, hnames⟩ := List.forall_mem_cons.mp h
    exact Nat.le_trans (ih hnames) (toDo_reach_le hn)

/-- **A step makes progress.** -/
theorem toDo_step_lt (h : s.pending ≠ []) : toDo schemas (step schemas s) < toDo schemas s := by
  obtain ⟨m, rest, hp⟩ := List.exists_cons_of_ne_nil h
  have htaken : toDo schemas s = toDo schemas { s with pending := rest } + 1 := by
    rw [toDo, hp]
    rfl
  rw [step_of_pending_cons hp, htaken]
  exact Nat.lt_succ_of_le (toDo_foldl_le fun _ => id)

/-- Each step that finds a pending name leaves less to do, by induction on the steps. -/
theorem pending_nil_or_toDo_le (schemas : Keyed Schema) (s : Search) (k : Nat) :
    (Nat.repeat (step schemas) k s).pending = [] ∨
      toDo schemas (Nat.repeat (step schemas) k s) + k ≤ toDo schemas s := by
  induction k with
  | zero => exact .inr (Nat.le_refl _)
  | succ k ih =>
    rw [Nat.repeat]
    by_cases hp : (Nat.repeat (step schemas) k s).pending = []
    · exact .inl ((step_of_pending_nil hp).symm ▸ hp)
    · have hk := ih.resolve_left hp
      have hlt : toDo schemas (step schemas _) < toDo schemas _ := toDo_step_lt hp
      exact .inr (by omega)

/-- **The search ends.** -/
theorem pending_run (schemas : Keyed Schema) (outside : List Char) :
    (run schemas outside).pending = [] := by
  rcases pending_nil_or_toDo_le schemas (start schemas outside) schemas.length with h | h
  · exact h
  · rw [toDo_start] at h
    have hnone : toDo schemas (run schemas outside) = 0 := by
      rw [run]
      omega
    exact List.eq_nil_of_length_eq_zero (Nat.eq_zero_of_add_eq_zero_left hnone)

/-! ### What the search reaches -/

/-- What holds along a search: the reached names are used, those that the rest of the document
refers to are reached, and so are those that a schema refers to that was looked through. -/
structure Invariant (schemas : Keyed Schema) (outside : List Char) (s : Search) : Prop where
  used {R : Set String} (hR : HoldsUsed schemas outside R) {n : String} (h : n ∈ s.reached) : n ∈ R
  roots {n : String} (hk : n ∈ schemas.keys) (hr : refersTo outside n) : n ∈ s.reached
  pending {n : String} (h : n ∈ s.pending) : n ∈ s.reached
  looked {m n : String} {e : Schema} (hm : m ∈ s.reached) (hp : m ∉ s.pending)
    (he : (m, e) ∈ schemas) (hk : n ∈ schemas.keys) (hr : refersTo e.toJson.chars n) : n ∈ s.reached

/-- At the start every reached name is pending. -/
theorem invariant_start : Invariant schemas outside (start schemas outside) where
  used hR n h := by
    obtain ⟨hk, hr⟩ := List.mem_filter.mp h
    exact hR.outside hk hr
  roots hk hr := List.mem_filter.mpr ⟨hk, hr⟩
  pending := List.mem_reverse.mp
  looked hm hp := absurd (List.mem_reverse.mpr hm) hp

/-- The name whose turn it is stops being pending, and what its schema refers to is reached. -/
theorem Invariant.step (h : Invariant schemas outside s) :
    Invariant schemas outside (step schemas s) := by
  cases hp : s.pending with
  | nil => exact (step_of_pending_nil hp).symm ▸ h
  | cons m rest =>
    have hm : m ∈ s.reached := h.pending (hp ▸ List.mem_cons_self)
    constructor
    case used =>
      intro R hR n hn
      rcases (mem_reached_step_iff hp).mp hn with hn | ⟨hk, e, he, hr⟩
      · exact h.used hR hn
      · exact hR.schema (h.used hR hm) he hk hr
    case roots =>
      intro n hk hr
      exact (mem_reached_step_iff hp).mpr (.inl (h.roots hk hr))
    case pending =>
      intro n hn
      refine (mem_reached_step_iff hp).mpr ?_
      rcases (mem_pending_step_iff hp).mp hn with hn | ⟨hk, -, hr⟩
      · exact .inl (h.pending (hp ▸ List.mem_cons_of_mem _ hn))
      · exact .inr ⟨hk, hr⟩
    case looked =>
      intro k n e hk hkp he hn hr
      refine (mem_reached_step_iff hp).mpr ?_
      have hout := mt (mem_pending_step_iff hp).mpr hkp
      by_cases hkm : k = m
      · exact .inr ⟨hn, e, hkm ▸ he, hr⟩
      -- A name that the step has just reached would be pending, so this one was reached before.
      · have hold : k ∈ s.reached := by
          by_contra hnew
          rcases (mem_reached_step_iff hp).mp hk with hk | ⟨hkk, hkr⟩
          · exact hnew hk
          · exact hout (.inr ⟨hkk, hnew, hkr⟩)
        have hrest : k ∉ s.pending := by
          rw [hp, List.mem_cons, not_or]
          exact ⟨hkm, fun hk => hout (.inl hk)⟩
        exact .inl (h.looked hold hrest he hn hr)

theorem invariant_run (schemas : Keyed Schema) (outside : List Char) :
    Invariant schemas outside (run schemas outside) := by
  have steps : ∀ k, Invariant schemas outside
      (Nat.repeat (Search.step schemas) k (start schemas outside)) := by
    intro k
    induction k with
    | zero => exact invariant_start
    | succ k ih => exact ih.step
  exact steps _

/-- **The search reaches the least set that holds the used names.** -/
theorem isLeast_reached_run (schemas : Keyed Schema) (outside : List Char) :
    IsLeast (HoldsUsed schemas outside) { n | n ∈ (run schemas outside).reached } := by
  have inv := invariant_run schemas outside
  have hdone {n : String} : n ∉ (run schemas outside).pending := by simp [pending_run]
  exact ⟨⟨inv.roots, fun hm hs hk hr => inv.looked hm hdone hs hk hr⟩,
    fun R hR n hn => inv.used hR hn⟩

end Search

end ApiAssembly
