import ApiAssembly.Proofs.Json.Drafts

/-!
# Proofs — Json — how deep a text is read

However deep the lists and records of a text are nested, its draft is nested no deeper than
`nestingLimit`: what lies deeper is marked, and does not count (`depth_read_le`).

The invariant of the reader is that what an open list or record holds so far leaves room for the
lists and records around it (`Fits`).
-/

namespace ApiAssembly

namespace Draft

/-- What an open list or record holds so far. -/
def Frame.drafts : Frame → List Draft
  | .list ds     => ds
  | .record fs _ => fs.map Prod.snd
  | .passing fs  => fs.map Prod.snd

/-- What each open list or record holds is no deeper than the ones around it leave room for. -/
def Fits : List Frame → Prop
  | []        => True
  | f :: rest => (∀ d ∈ f.drafts, d.depth ≤ nestingLimit - (rest.length + 1)) ∧ Fits rest

/-- The step keeps to the limit. -/
def Build.Fits : Build → Prop
  | .more stack _ => Draft.Fits stack
  | .done d       => d.depth ≤ nestingLimit
  | .bad          => True

/-- What is closed too deep is marked, and then does not count. -/
theorem depth_closed_le {d : Draft} {around : List Frame}
    (h : d.depth ≤ nestingLimit - (around.length + 1) + 1) :
    (d.closed around).depth ≤ nestingLimit - around.length := by
  rw [closed]
  split
  · omega
  · exact Nat.zero_le _

theorem depth_list_le {ds : List Draft} {n : Nat} (h : ∀ d ∈ ds, d.depth ≤ n) :
    (list ds.reverse).depth ≤ n + 1 :=
  Nat.succ_le_succ (depthOfItems_le_iff.mpr fun d hd => h d (List.mem_reverse.mp hd))

theorem depth_record_le {fs : List (String × Draft)} {e : Ending} {n : Nat}
    (h : ∀ d ∈ fs.map Prod.snd, d.depth ≤ n) : (record fs.reverse e).depth ≤ n + 1 :=
  Nat.succ_le_succ (depthOfFields_le_iff.mpr fun f hf =>
    h f.2 (List.mem_map_of_mem (List.mem_reverse.mp hf)))

variable {stack : List Frame}

/-- A value that has room fits into the innermost open list or record. -/
theorem fits_place {d : Draft} (hd : d.depth ≤ nestingLimit - stack.length) (h : Fits stack) :
    (place d stack).Fits := by
  cases stack with
  | nil => exact hd
  | cons f rest =>
    obtain ⟨hf, hrest⟩ := h
    cases f with
    | list ds => exact ⟨List.forall_mem_cons.mpr ⟨hd, hf⟩, hrest⟩
    | passing fs => exact ⟨hf, hrest⟩
    | record fs key =>
      cases key with
      | none => trivial
      | some k => exact ⟨List.forall_mem_cons.mpr ⟨hd, hf⟩, hrest⟩

/-- A scalar is not nested, and an opened list or record takes one level. -/
theorem fits_value (t : Token) (h : Fits stack) : (value stack t).Fits := by
  have scalar : ∀ {d : Draft}, d.depth = 0 → (place d stack).Fits := fun hd =>
    fits_place (hd ▸ Nat.zero_le _) h
  cases t with
  | listOpen => exact ⟨fun _ hd => absurd hd List.not_mem_nil, h⟩
  | recordOpen => exact ⟨fun _ hd => absurd hd List.not_mem_nil, h⟩
  | null => exact scalar rfl
  | bool b => exact scalar rfl
  | num n => cases n <;> exact scalar rfl
  | str s => cases s <;> exact scalar rfl
  | _ => trivial

/-- A list that is closed is one level deeper than its items, and stands one level further out. -/
theorem fits_closeList (h : Fits stack) : (closeList stack).Fits := by
  cases stack with
  | nil => trivial
  | cons f rest =>
    obtain ⟨hf, hrest⟩ := h
    cases f with
    | list ds => exact fits_place (depth_closed_le (depth_list_le hf)) hrest
    | _ => trivial

/-- A record that is closed is one level deeper than its fields. -/
theorem fits_closeRecord (h : Fits stack) : (closeRecord stack).Fits := by
  cases stack with
  | nil => trivial
  | cons f rest =>
    obtain ⟨hf, hrest⟩ := h
    cases f with
    | list ds => trivial
    | passing fs => exact fits_place (depth_closed_le (depth_record_le hf)) hrest
    | record fs key =>
      cases key with
      | some k => trivial
      | none => exact fits_place (depth_closed_le (depth_record_le hf)) hrest

theorem fits_takeKey (key : Option String) (h : Fits stack) : (takeKey key stack).Fits := by
  unfold takeKey
  split
  · exact h
  · exact h
  · exact h
  · trivial

/-- The invariant is kept token by token. -/
theorem fits_act (await : Await) (t : Token) (h : Fits stack) : (act stack await t).Fits := by
  unfold act
  split
  · exact fits_closeList h
  · exact fits_closeList h
  · exact h
  · exact fits_closeRecord h
  · exact fits_closeRecord h
  · exact h
  · exact fits_takeKey _ h
  · exact fits_takeKey _ h
  · exact h
  · exact fits_value _ h
  · exact fits_value _ h
  · trivial

/-- Where a text breaks off, what is open is closed around what came last. -/
theorem depth_wrap_le {d : Draft} (hd : d.depth ≤ nestingLimit - stack.length) (h : Fits stack) :
    (wrap d stack).depth ≤ nestingLimit := by
  induction stack generalizing d with
  | nil => exact hd
  | cons f rest ih =>
    obtain ⟨hf, hrest⟩ := h
    cases f with
    | list ds =>
      exact ih (depth_closed_le (depth_list_le (List.forall_mem_cons.mpr ⟨hd, hf⟩))) hrest
    | passing fs => exact ih (depth_closed_le (depth_record_le hf)) hrest
    | record fs key =>
      cases key with
      | none => exact ih (depth_closed_le (depth_record_le hf)) hrest
      | some k =>
        refine ih (depth_closed_le (depth_record_le ?_)) hrest
        exact List.forall_mem_cons.mpr ⟨hd, hf⟩

/-- What is built from a stack that fits is within the limit, by induction on the tokens. -/
theorem depth_build_le {await : Await} {ts : List Token} (h : Fits stack) :
    (build stack await ts).1.depth ≤ nestingLimit := by
  -- The frames fit until a value is done, or until what is open is closed where the tokens end or
  -- one of them does not belong.
  induction ts generalizing stack await with
  | nil => exact depth_wrap_le (Nat.zero_le _) h
  | cons t ts ih =>
    have hstep := fits_act await t h
    rw [build]
    cases hact : act stack await t with
    | more stack' await' => exact ih (by rwa [hact] at hstep)
    | done d => rwa [hact] at hstep
    | bad => exact depth_wrap_le (Nat.zero_le _) h

/-- **The draft of a text is nested no deeper than the limit.** -/
theorem depth_read_le (text : String) : (read text).depth ≤ nestingLimit :=
  depth_build_le (show Fits [] from trivial)

end Draft

end ApiAssembly
