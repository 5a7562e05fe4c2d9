import ApiAssembly.CommandLine.LatinSlugs
import ApiAssembly.Proofs.Assembly.Handed
import ApiAssembly.Proofs.Partition.ByKey

/-!
# Proofs — Assembly — a finish depends on the inputs alone

A run is any list of calls, inputs and finishes, of a new assembler.  Each finish has an emitter of
its own, which answers as it likes.  What a run has collected is a function of its inputs
(`Collected`): each call keeps that (`Collected.take`, `Collected.finish`), and so does every run
(`collected_run`).  Of the inputs only three orders count: that of the base documents, that of the
endpoints, and for each group that of its registrations (`SameOrder`).

So what the last finish of a run hands over is what a new assembler hands over that gets the inputs
alone and finishes once, and what every other run hands over whose inputs have the same orders
(`handed_eq_of_sameOrder`).
-/

namespace ApiAssembly

variable {σ τ : Type}

/-! ### Calls -/

/-- A call that adds to the inputs.  A base document comes with the files that are there. -/
inductive Input where
  | visit (files : FileTree) (d : Document)
  | record (e : Endpoint)
  | recordAll (es : List Endpoint)
  | register (group : String) (d : Document)

/-- A call of an assembler.  A finish has its emitter and the state that the emitter is in. -/
inductive Call (σ : Type) where
  | input (i : Input)
  | finish (em : Emitter σ) (s : σ)

/-- The inputs among some calls. -/
def inputsOf (cs : List (Call σ)) : List Input :=
  cs.filterMap fun
    | .input i    => some i
    | .finish _ _ => none

namespace Input

/-- The base document that an input adds. -/
def base? : Input → Option Document
  | .visit _ d => some d
  | _          => none

/-- The endpoints that an input adds. -/
def endpoints : Input → List Endpoint
  | .record e     => [e]
  | .recordAll es => es
  | _             => []

/-- The document that an input registers for a group. -/
def known? (g : String) : Input → Option Document
  | .register group d => if group = g then some d else none
  | _                 => none

/-- A base document comes while the additional documents are `more`. -/
def Sees (c : Context) (more : List Document) : Input → Prop
  | .visit files _ => (Assembler.additional { context := c } files).1 = more
  | _              => True

end Input

/-- The same base documents, endpoints, and registrations of each group, each in the same order. -/
structure SameOrder (is js : List Input) : Prop where
  bases : is.filterMap Input.base? = js.filterMap Input.base?
  endpoints : is.flatMap Input.endpoints = js.flatMap Input.endpoints
  known : ∀ g, is.filterMap (Input.known? g) = js.filterMap (Input.known? g)

/-- Inputs have their own order. -/
theorem SameOrder.refl (is : List Input) : SameOrder is is := ⟨rfl, rfl, fun _ => rfl⟩

namespace Assembler

/-- Takes an input. -/
def take (a : Assembler) : Input → Assembler
  | .visit files d    => a.visit files d
  | .record e         => a.record [e]
  | .recordAll es     => a.record es
  | .register group d => a.register group d

/-- Takes a call. -/
def call (a : Assembler) : Call σ → Assembler
  | .input i     => a.take i
  | .finish em s => (a.finish em s).assembler

/-- The assembler after some calls of a new one. -/
def run (c : Context) (cs : List (Call σ)) : Assembler := cs.foldl call { context := c }

/-! ### What a run has collected -/

/-- A base document with another one that comes later. -/
def joinBase (more : List Document) (base : Option Document) (d : Document) : Document :=
  match base with
  | none      => (d.mergeAll more).1
  | some base => { base.mergeFrom d with info := d.info.or (base.mergeFrom d).info }

/-- The assembler holds what the inputs bring, and nothing else. -/
structure Collected (c : Context) (more : List Document) (is : List Input) (a : Assembler) :
    Prop where
  context : a.context = c
  base : a.base = (is.filterMap Input.base?).foldl (fun base d => some (joinBase more base d)) none
  endpoints : a.endpoints = is.flatMap Input.endpoints
  known : ∀ g, a.known.get? g = (is.filterMap (Input.known? g)).getLast?

variable {c : Context} {more : List Document} {is js : List Input} {a b : Assembler}

theorem context_take (a : Assembler) (i : Input) : (a.take i).context = a.context := by
  cases i <;> rfl

theorem emittedAt_take (a : Assembler) (i : Input) : (a.take i).emittedAt = a.emittedAt := by
  cases i <;> rfl

/-- An endpoint comes behind those that were collected. -/
theorem endpoints_take (a : Assembler) (i : Input) :
    (a.take i).endpoints = a.endpoints ++ i.endpoints := by
  cases i with
  | visit files d => exact (List.append_nil _).symm
  | record e => rfl
  | recordAll es => rfl
  | register group d => exact (List.append_nil _).symm

/-- The last registration of a group is the one that is found. -/
theorem get?_known_take (a : Assembler) (i : Input) (g : String) :
    (a.take i).known.get? g = (i.known? g).or (a.known.get? g) := by
  cases i with
  | register group d =>
    by_cases h : group = g
    · subst h
      simp [take, register, Input.known?, Keyed.get?_insert_self]
    · simp [take, register, Input.known?, Keyed.get?_insert_of_ne _ _ h, h]
  | _ => rfl

/-- Only a base document changes the base, and the files count for the first one alone. -/
theorem base_take (hc : a.context = c) {i : Input} (hi : i.Sees c more) :
    (a.take i).base = (i.base?.map (joinBase more a.base)).or a.base := by
  cases i with
  | visit files d =>
    -- The directory of the additional documents is a setting, so that they are those of a new one.
    have hmore : (a.additional files).1 = more := by
      rw [← hi, additional, additional, hc]
    rw [take, visit, nextBase, Input.base?, Option.map_some, Option.some_or, ← hmore]
    cases a.base <;> rfl
  | _ => rfl

/-- A new assembler has collected what no inputs give. -/
theorem collected_new (c : Context) (more : List Document) :
    Collected c more [] { context := c } :=
  ⟨rfl, rfl, rfl, fun _ => rfl⟩

/-- An input adds what it brings. -/
theorem Collected.take (h : Collected c more is a) {i : Input} (hi : i.Sees c more) :
    Collected c more (is ++ [i]) (a.take i) where
  context := (a.context_take i).trans h.context
  base := by
    rw [base_take h.context hi, h.base, List.filterMap_append, List.foldl_append]
    cases hd : i.base? <;> simp [hd]
  endpoints := by
    rw [endpoints_take, h.endpoints, List.flatMap_append, List.flatMap_singleton]
  known g := by
    rw [get?_known_take, h.known, List.filterMap_append]
    cases hd : i.known? g <;> simp [hd]

/-- A finish adds nothing, whatever the emitter answers. -/
theorem Collected.finish (h : Collected c more is a) (em : Emitter σ) (s : σ) :
    Collected c more is (a.finish em s).assembler := by
  obtain ⟨at?, ws, hf⟩ := a.finish_inputs em s
  rw [hf]
  exact ⟨h.context, h.base, h.endpoints, h.known⟩

/-- **What a run has collected.** -/
theorem collected_run (cs : List (Call σ)) (h : ∀ i ∈ inputsOf cs, i.Sees c more) :
    Collected c more (inputsOf cs) (run c cs) := by
  induction cs using List.reverseRecOn with
  | nil => exact collected_new c more
  | append_singleton cs k ih =>
    rw [run, List.foldl_append, ← run]
    cases k with
    | input i =>
      have hi : inputsOf (cs ++ [.input i]) = inputsOf cs ++ [i] := by simp [inputsOf]
      rw [hi] at h ⊢
      exact (ih fun j hj => h j (List.mem_append_left _ hj)).take
        (h i (List.mem_append_right _ (List.mem_singleton_self i)))
    | finish em s =>
      have hi : inputsOf (cs ++ [.finish em s]) = inputsOf cs := by simp [inputsOf]
      rw [hi] at h ⊢
      exact (ih h).finish em s

/-! ### What the last finish hands over -/

/-- Inputs of the same order are prepared to the same outputs. -/
theorem Collected.prepared_eq (ha : Collected c more is a) (hb : Collected c more js b)
    (h : SameOrder is js) (base : Document) : a.prepared base = b.prepared base := by
  have hk : ∀ g, a.known.get? g = b.known.get? g := fun g => by
    rw [ha.known, hb.known, h.known]
  rw [prepared, prepared, outputs, outputs, ha.context, hb.context, ha.endpoints, hb.endpoints,
    h.endpoints, Partitioning.outputs_congr_known _ _ hk]

/-- Inputs of the same order give the same base document. -/
theorem Collected.base_eq (ha : Collected c more is a) (hb : Collected c more js b)
    (h : SameOrder is js) : a.base = b.base := by
  rw [ha.base, hb.base, h.bases]

/-- What is handed over goes by what was collected. -/
theorem Collected.handed_eq (ha : Collected c more is a) (hb : Collected c more js b)
    (h : SameOrder is js) (hra : a.Ready) (hrb : b.Ready) {em : Emitter σ} {s : σ}
    (hda : a.Delivers em s) {em' : Emitter τ} {s' : τ} (hdb : b.Delivers em' s') :
    a.handed em s = b.handed em' s' := by
  obtain ⟨base, hbase⟩ := Option.isSome_iff_exists.mp hra.base
  rw [handed_eq_renderings hra hbase hda,
    handed_eq_renderings hrb ((ha.base_eq hb h).symm.trans hbase) hdb, ha.prepared_eq hb h]

/-! ### A new assembler with inputs alone -/

/-- A new assembler that took some inputs. -/
def fed (c : Context) (is : List Input) : Assembler := is.foldl take { context := c }

theorem run_map_input (c : Context) (is : List Input) :
    run c (is.map (Call.input : Input → Call σ)) = fed c is :=
  List.foldl_map

theorem inputsOf_map_input (is : List Input) :
    inputsOf (is.map (Call.input : Input → Call σ)) = is := by
  simp [inputsOf, List.filterMap_map]

/-- A new assembler that gets the inputs alone has collected what they give. -/
theorem collected_fed (h : ∀ i ∈ is, i.Sees c more) : Collected c more is (fed c is) := by
  have := collected_run (σ := Unit) (is.map .input) ((inputsOf_map_input is).symm ▸ h)
  rwa [inputsOf_map_input, run_map_input] at this

theorem emittedAt_fed (c : Context) (is : List Input) : (fed c is).emittedAt = none := by
  induction is using List.reverseRecOn with
  | nil => rfl
  | append_singleton is i ih =>
    rw [fed, List.foldl_append, ← fed]
    exact (emittedAt_take _ i).trans ih

/-- Before anything is emitted an assembler is dirty. -/
theorem dirty_of_emittedAt_none (h : a.emittedAt = none) : a.state = .dirty := by
  rw [state, h]
  exact if_neg nofun

/-- Endpoints that come after a finish wait to be emitted, whether it gave a report or not. -/
theorem dirty_record_of_finish (h : a.emittedAt = none) (em : Emitter σ) (s : σ)
    {es : List Endpoint} (hes : es ≠ []) :
    ((a.finish em s).assembler.record es).state = .dirty := by
  have hl := List.length_pos_of_ne_nil hes
  rw [state, observed_record, observed_finish, record]
  refine if_neg ?_
  rcases a.emittedAt_finish em s with hf | hf
  · rw [hf, h]
    exact (Option.some_ne_none _).symm
  · rw [hf, Option.some.injEq]
    omega

/-- **History independence.**  Let a run end before a finish that is processed and delivers.  A new
assembler that takes the inputs of the run alone is ready, and its one finish hands over the same
renderings: the same keys, file names and contents.  So does the finish after every other run with
the same orders of base documents, of endpoints, and of the registrations of each group. -/
theorem handed_eq_of_sameOrder {cs : List (Call σ)} (hcs : ∀ i ∈ inputsOf cs, i.Sees c more)
    (hr : (run c cs).Ready) {em : Emitter σ} {s : σ} (hd : (run c cs).Delivers em s) :
    (fed c (inputsOf cs)).Ready ∧
    (∀ (em' : Emitter τ) (s' : τ), (fed c (inputsOf cs)).Delivers em' s' →
      (fed c (inputsOf cs)).handed em' s' = (run c cs).handed em s) ∧
    ∀ (cs' : List (Call τ)) (em' : Emitter τ) (s' : τ), SameOrder (inputsOf cs') (inputsOf cs) →
      (∀ i ∈ inputsOf cs', i.Sees c more) → (run c cs').Ready → (run c cs').Delivers em' s' →
      (run c cs').handed em' s' = (run c cs).handed em s := by
  have hrun := collected_run cs hcs
  have hfed := collected_fed hcs
  have ready : (fed c (inputsOf cs)).Ready :=
    { enabled := by rw [hfed.context, ← hrun.context]; exact hr.enabled
      base := by rw [hfed.base_eq hrun (.refl _)]; exact hr.base
      dirty := dirty_of_emittedAt_none (emittedAt_fed c _) }
  refine ⟨ready, fun em' s' hd' => ?_, fun cs' em' s' h hcs' hr' hd' => ?_⟩
  · exact hfed.handed_eq hrun (.refl _) ready hr hd' hd
  · exact (collected_run cs' hcs').handed_eq hrun h hr' hr hd' hd

/-- A run that emits its base document, and then records an endpoint. -/
def emittedEarly : List (Call (List (String × String))) :=
  [.input (.visit {} { info := some { title := "Pets", version := "1.0" } }),
    .finish Emitter.memory [], .input (.record { url := "/pets" })]

theorem emittedEarly_sees : ∀ i ∈ inputsOf emittedEarly, i.Sees {} [] := by
  intro i hi
  rcases List.mem_cons.mp hi with rfl | hi
  · rfl
  · obtain rfl := List.mem_singleton.mp hi
    trivial

/-- The endpoint waits to be emitted, whether the first finish gave a report or not. -/
theorem emittedEarly_ready : (run {} emittedEarly).Ready where
  enabled := by rw [(collected_run emittedEarly emittedEarly_sees).context]; decide
  base := by rw [(collected_run emittedEarly emittedEarly_sees).base]; rfl
  dirty := dirty_record_of_finish rfl _ _ (List.cons_ne_nil _ _)

/-- The memory has a place for everything. -/
theorem delivers_memory (a : Assembler) (kept : List (String × String)) :
    a.Delivers Emitter.memory kept := by
  refine delivers_of_answers (fun s r filename h => ?_) a kept
  cases h

/-- Over the run that emits early, the endpoint is handed over as by a single finish. -/
theorem handed_emittedEarly :
    (∀ i ∈ inputsOf emittedEarly, i.Sees {} []) ∧ (run {} emittedEarly).Ready ∧
      (run {} emittedEarly).Delivers Emitter.memory [] ∧
      (fed {} (inputsOf emittedEarly)).handed Emitter.memory [] =
        (run {} emittedEarly).handed Emitter.memory [] :=
  ⟨emittedEarly_sees, emittedEarly_ready, delivers_memory _ _,
    (handed_eq_of_sameOrder emittedEarly_sees emittedEarly_ready (delivers_memory _ _)).2.1
      Emitter.memory [] (delivers_memory _ _)⟩

end Assembler

end ApiAssembly
