import ApiAssembly.Proofs.Json.Drafts
import ApiAssembly.Proofs.Json.Tokens

/-!
# Proofs — Json — what is printed is read

The tokens of a value are built into its draft (`build_tokens`), when it is nested no deeper than
a reader goes.  So **the draft of a printed value is the draft of the value** (`read_compact`,
`read_indented`), for both texts.
-/

namespace ApiAssembly

namespace Draft

/-- What is read after a step that goes on or is the last one. -/
def Build.run (ts : List Token) : Build → Draft × List Token
  | .more stack await => build stack await ts
  | .done d           => (d, ts)
  | .bad              => (.broken, [])

theorem build_cons {stack : List Frame} {await : Await} {t : Token} {ts : List Token} {b : Build}
    (h : act stack await t = b) (hb : b ≠ .bad) : build stack await (t :: ts) = b.run ts := by
  rw [build, h]
  cases b with
  | bad => exact absurd rfl hb
  | _ => rfl

theorem closed_of_lt {d : Draft} {around : List Frame} (h : around.length < nestingLimit) :
    d.closed around = d :=
  if_pos h

end Draft

namespace Json

open Draft (build place Frame Await nestingLimit)

/-- A value may come next, and has its place. -/
structure MayCome (stack : List Frame) (await : Await) : Prop where
  awaited : await = .value ∨ await = .firstItem
  placed (d : Draft) : place d stack ≠ .bad

namespace MayCome

variable {stack : List Frame} {await : Await}

theorem root : MayCome [] .value := ⟨.inl rfl, fun d => by simp [place]⟩

theorem item {done : List Draft} (h : await = .value ∨ await = .firstItem) :
    MayCome (.list done :: stack) await :=
  ⟨h, fun d => by simp [place]⟩

theorem entry {done : List (String × Draft)} {k : String} :
    MayCome (.record done (some k) :: stack) .value :=
  ⟨.inl rfl, fun d => by simp [place]⟩

end MayCome

/-- A value is built wherever one may come that is nested as deep. -/
def Builds (j : Json) : Prop :=
  ∀ {stack : List Frame} {await : Await} {ts : List Token}, MayCome stack await →
    stack.length + j.depth ≤ nestingLimit →
    build stack await (j.tokens ++ ts) = (place j.draft stack).run ts

/-- A value of one token. -/
theorem build_scalar {j : Json} {t : Token} (htokens : j.tokens = [t])
    (hact : ∀ {stack await}, await = .value ∨ await = .firstItem →
      Draft.act stack await t = place j.draft stack) : j.Builds := by
  intro stack await ts hcome _
  rw [htokens]
  exact Draft.build_cons (hact hcome.awaited) (hcome.placed _)

theorem build_items {items : List Json} (h : ∀ x ∈ items, x.Builds) {stack : List Frame}
    {done : List Draft} {await : Await} {ts : List Token} (hne : items ≠ [])
    (hawait : await = .value ∨ await = .firstItem)
    (hdepth : stack.length + 1 + depthOfItems items ≤ nestingLimit) :
    build (.list done :: stack) await (itemTokens items ++ ts) =
      build (.list ((draftItems items).reverse ++ done) :: stack) .nextItem ts := by
  induction items generalizing done await with
  | nil => exact absurd rfl hne
  | cons x items ih =>
    obtain ⟨hx, hitems⟩ := List.forall_mem_cons.mp h
    have hdx : (Frame.list done :: stack).length + x.depth ≤ nestingLimit := by
      simp only [depthOfItems, List.length_cons] at hdepth ⊢
      omega
    have hdi : stack.length + 1 + depthOfItems items ≤ nestingLimit := by
      simp only [depthOfItems] at hdepth
      omega
    cases items with
    | nil =>
      rw [itemTokens, hx (.item hawait) hdx]
      rfl
    | cons y r =>
      rw [itemTokens, List.append_assoc, hx (.item hawait) hdx]
      show build (.list (x.draft :: done) :: stack) .value (itemTokens (y :: r) ++ ts) = _
      rw [ih hitems (List.cons_ne_nil y r) (.inl rfl) hdi]
      simp [draftItems]

theorem build_fields {fields : List (String × Json)} (h : ∀ f ∈ fields, f.2.Builds)
    {stack : List Frame} {done : List (String × Draft)} {await : Await} {ts : List Token}
    (hne : fields ≠ []) (hawait : await = .firstKey ∨ await = .key)
    (hdepth : stack.length + 1 + depthOfFields fields ≤ nestingLimit) :
    build (.record done none :: stack) await (fieldTokens fields ++ ts) =
      build (.record ((draftFields fields).reverse ++ done) none :: stack) .nextKey ts := by
  induction fields generalizing done await with
  | nil => exact absurd rfl hne
  | cons f fields ih =>
    obtain ⟨k, x⟩ := f
    obtain ⟨hx, hfields⟩ := List.forall_mem_cons.mp h
    have hdx : (Frame.record done (some k) :: stack).length + x.depth ≤ nestingLimit := by
      simp only [depthOfFields, List.length_cons] at hdepth ⊢
      omega
    have hdf : stack.length + 1 + depthOfFields fields ≤ nestingLimit := by
      simp only [depthOfFields] at hdepth
      omega
    have hkey : ∀ ts, build (.record done none :: stack) await (.str (some k) :: .colon :: ts) =
        build (.record done (some k) :: stack) .value ts := by
      intro ts
      rcases hawait with rfl | rfl <;> rfl
    cases fields with
    | nil =>
      rw [fieldTokens, List.cons_append, List.cons_append, hkey, hx .entry hdx]
      rfl
    | cons f r =>
      rw [fieldTokens, List.cons_append, List.cons_append, List.append_assoc, List.cons_append,
        hkey, hx .entry hdx]
      show build (.record ((k, x.draft) :: done) none :: stack) .key
        (fieldTokens (f :: r) ++ ts) = _
      rw [ih hfields (List.cons_ne_nil f r) (.inr rfl) hdf]
      simp [draftFields]

/-- **The tokens of a value are built into its draft.** -/
theorem build_tokens (j : Json) : j.Builds := by
  induction j using induct with
  | null => exact build_scalar rfl fun h => by rcases h with rfl | rfl <;> rfl
  | bool b => exact build_scalar rfl fun h => by rcases h with rfl | rfl <;> rfl
  | num n => exact build_scalar rfl fun h => by rcases h with rfl | rfl <;> rfl
  | str s => exact build_scalar rfl fun h => by rcases h with rfl | rfl <;> rfl
  | arr items ih =>
    intro stack await ts hcome hdepth
    rw [depth] at hdepth
    have hlt : stack.length < nestingLimit := by omega
    have hopen : build stack await ((arr items).tokens ++ ts) =
        build (.list [] :: stack) .firstItem (itemTokens items ++ .listClose :: ts) := by
      rw [tokens, List.append_assoc]
      rcases hcome.awaited with rfl | rfl <;> rfl
    have hclose : ∀ ds, Draft.closeList (.list ds :: stack) = place (.list ds.reverse) stack :=
      fun ds => by rw [Draft.closeList, Draft.closed_of_lt hlt]
    rw [hopen]
    -- A list without items is closed where its first item may come.
    cases items with
    | nil => exact Draft.build_cons (hclose []) (hcome.placed _)
    | cons x r =>
      rw [build_items ih (List.cons_ne_nil x r) (.inr rfl) (by omega), List.append_nil]
      have hdraft := hclose (draftItems (x :: r)).reverse
      rw [List.reverse_reverse] at hdraft
      exact Draft.build_cons hdraft (hcome.placed _)
  | obj fields ih =>
    intro stack await ts hcome hdepth
    rw [depth] at hdepth
    have hlt : stack.length < nestingLimit := by omega
    have hopen : build stack await ((obj fields).tokens ++ ts) =
        build (.record [] none :: stack) .firstKey (fieldTokens fields ++ .recordClose :: ts) := by
      rw [tokens, List.append_assoc]
      rcases hcome.awaited with rfl | rfl <;> rfl
    have hclose : ∀ fs, Draft.closeRecord (.record fs none :: stack) =
        place (.record fs.reverse .closed) stack :=
      fun fs => by rw [Draft.closeRecord, Draft.closed_of_lt hlt]
    rw [hopen]
    cases fields with
    | nil => exact Draft.build_cons (hclose []) (hcome.placed _)
    | cons f r =>
      rw [build_fields ih (List.cons_ne_nil f r) (.inl rfl) (by omega), List.append_nil]
      have hdraft := hclose (draftFields (f :: r)).reverse
      rw [List.reverse_reverse] at hdraft
      exact Draft.build_cons hdraft (hcome.placed _)

/-- A text that is read as the tokens of a value is read as its draft. -/
theorem read_of_scans {j : Json} {cs : List Char} (h : Token.Scans cs j.tokens)
    (hdepth : j.depth ≤ nestingLimit) : Draft.read (String.ofList cs) = j.draft := by
  have htokens : Token.scan .between cs = j.tokens := by
    have hall := h [] nofun
    rwa [List.append_nil, Token.scan, List.append_nil] at hall
  have hbuild : build [] .value (j.tokens ++ []) = (j.draft, []) :=
    j.build_tokens .root (by simpa using hdepth)
  rw [List.append_nil] at hbuild
  rw [Draft.read, Draft.scan, String.toList_ofList, htokens, hbuild]

/-- **The compact text of a value is read as the value**, when its numbers are read back and it is
nested no deeper than a reader goes. -/
theorem read_compact {j : Json} (h : j.NumbersReadBack) (hdepth : j.depth ≤ nestingLimit) :
    Draft.read j.compact = j.draft :=
  read_of_scans (j.scans_chars h) hdepth

/-- **The indented text of a value is read as the value**, likewise. -/
theorem read_indented {j : Json} (h : j.NumbersReadBack) (hdepth : j.depth ≤ nestingLimit) :
    Draft.read j.indented = j.draft :=
  read_of_scans (j.scans_indentedChars h 0) hdepth

end Json

end ApiAssembly
