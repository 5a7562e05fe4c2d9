import ApiAssembly.Proofs.Config.TypeRules
import ApiAssembly.Proofs.Files.Broken

/-!
# Proofs — Config — what the environment layer is read by

Whether there is an environment layer, and which environments are active in it, is said by two
settings of the layers in front of it.  They are read before there is a context, and by the first
layer that has them; every other setting is read by the first layer in which it is not blank.

A blank text leaves a setting at its default, so one that stands alone does no harm: the two ways to
read a setting come to the same unless a blank text hides one that means something
(`getD_firstValue?_eq_iff`).  So the environment layer is read as a context of the layers in front
of it would say exactly when no blank value of the caller hides a `false`, or environments, in the
properties file (`ContextInput.readsAlike_iff`).
-/

namespace ApiAssembly

/-! ### The two ways to read a setting -/

/-- A blank text in one layer hides a text of the layer behind it. -/
def Layer.Hides (l l' : Layer) (key text : String) : Prop :=
  (l.get? key).any blankText ∧ l'.get? key = some text

/-- The first layer that has the key answers, with whatever it has. -/
theorem firstValue?_cons (l : Layer) (layers : List Layer) (key : String) :
    firstValue? (l :: layers) key = (l.get? key).or (firstValue? layers key) := by
  rw [firstValue?, List.findSome?_cons]
  cases l.get? key <;> rfl

/-- The first layer in which the value is not blank answers. -/
theorem property?_cons (l : Layer) (layers : List Layer) (key : String) :
    property? (l :: layers) key =
      ((l.get? key).filter fun text => !blankText text).or (property? layers key) := by
  rw [property?, List.filterMap_cons]
  cases l.get? key with
  | none => rfl
  | some text =>
    rw [List.find?_cons]
    cases hblank : blankText text <;> simp [Option.filter, hblank, property?]

section TwoLayers

variable {l l' : Layer} {key : String}

theorem firstValue?_pair : firstValue? [l, l'] key = (l.get? key).or (l'.get? key) := by
  rw [firstValue?_cons, firstValue?_cons, firstValue?, List.findSome?_nil, Option.or_none]

theorem property?_pair : property? [l, l'] key =
    ((l.get? key).filter fun text => !blankText text).or
      ((l'.get? key).filter fun text => !blankText text) := by
  rw [property?_cons, property?_cons, property?, List.filterMap_nil, List.find?_nil,
    Option.or_none]

variable {α : Type} {parse : String → α} {default : α}

/-- Where a blank text means the default, it may as well not be there. -/
theorem getD_filter_not_blankText (hparse : ∀ text, blankText text → parse text = default)
    (o : Option String) :
    ((o.filter fun text => !blankText text).map parse).getD default =
      (o.map parse).getD default := by
  cases o with
  | none => rfl
  | some text =>
    cases hblank : blankText text with
    | true => simp [Option.filter, hblank, hparse text hblank]
    | false => simp [Option.filter, hblank]

/-- **The two ways to read a setting** that a blank text leaves at its default come to the same
exactly when no blank text hides one that means something. -/
theorem getD_firstValue?_eq_iff (hparse : ∀ text, blankText text → parse text = default) :
    ((firstValue? [l, l'] key).map parse).getD default =
        ((property? [l, l'] key).map parse).getD default ↔
      ∀ text, l.Hides l' key text → parse text = default := by
  rw [firstValue?_pair, property?_pair]
  cases hl : l.get? key with
  | none =>
    refine iff_of_true (getD_filter_not_blankText hparse _).symm fun text hhides => ?_
    rw [Layer.Hides, hl] at hhides
    cases hhides.1
  | some text =>
    cases hblank : blankText text with
    | false =>
      refine iff_of_true (by simp [Option.filter, hblank]) fun text' hhides => ?_
      rw [Layer.Hides, hl, Option.any_some, hblank] at hhides
      cases hhides.1
    | true =>
      -- One way stops at the blank text and has the default, and the other one goes on.
      have hhides : ∀ text', l.Hides l' key text' ↔ l'.get? key = some text' := fun text' => by
        simp [Layer.Hides, hl, hblank]
      have hfilter : (some text).filter (fun text => !blankText text) = none := by
        simp [Option.filter, hblank]
      simp only [hhides]
      rw [hfilter, Option.none_or, getD_filter_not_blankText hparse, Option.some_or,
        Option.map_some, Option.getD_some, hparse text hblank]
      cases l'.get? key with
      | none => simp
      | some text' => simp [eq_comm]

end TwoLayers

/-! ### Flags and lists -/

section Settings

variable {layers : List Layer} {key text : String}

/-- A blank flag is at its default. -/
theorem parseFlag_of_blank (h : blankText text) (default : Bool) :
    parseFlag text default = default :=
  if_pos h

/-- A blank list is empty. -/
theorem parseList_of_blank (h : blankText text) : parseList text = [] := by
  have hitems : parseItems ([] ++ [] ++ text.toList) = parseItems [] :=
    parseItems_append_append rfl h
  rw [List.append_nil, List.nil_append] at hitems
  rw [parseList, hitems]
  rfl

theorem Context.flag_eq (c : Context) (key : String) (default : Bool) : c.flag key default =
    ((c.property? key).map fun text => parseFlag text default).getD default := by
  rw [flag]
  cases c.property? key <;> rfl

theorem Context.list_eq (c : Context) (key : String) :
    c.list key = ((c.property? key).map parseList).getD [] := by
  rw [list]
  cases c.property? key <;> rfl

theorem ContextInput.environmentEnabled_eq (layers : List Layer) : environmentEnabled layers =
    ((firstValue? layers Key.environmentEnabled).map fun text =>
      parseFlag text true).getD true := by
  rw [environmentEnabled]
  cases firstValue? layers Key.environmentEnabled <;> rfl

theorem ContextInput.environments_eq (layers : List Layer) : environments layers =
    ((firstValue? layers Key.environments).map parseList).getD [] := by
  rw [environments]
  cases firstValue? layers Key.environments <;> rfl

end Settings

namespace ContextInput

variable (files : FileTree) (input : ContextInput)

/-- What the caller gives, as a layer. -/
def callerLayer : Layer := .system (Keyed.ofList input.system)

/-- The properties file of the project, as a layer. -/
def propertiesLayer : Layer := .file (loadProperties files input.propertiesPath).1

/-- The context that there is before the environment is read. -/
def earlyContext : Context := input.contextOf [input.callerLayer, input.propertiesLayer files]

/-- The environment layer is read by the settings in front of it as they are read everywhere else:
it is there when the flag for it is on, and the active environments are those of the list. -/
structure ReadsAlike : Prop where
  present : (∃ e, Layer.environment e ∈ (input.build files).1.layers) ↔
    (input.earlyContext files).flag Key.environmentEnabled true
  active : environments (input.earlyContext files).layers =
    (input.earlyContext files).list Key.environments

/-- Behind the first two layers comes the environment, if it is enabled, with the application files
of the active environments. -/
theorem layers_build : (input.build files).1.layers =
    (input.earlyContext files).layers ++
      if environmentEnabled (input.earlyContext files).layers then
        [.environment (Environment.load files input.projectDir
          (environments (input.earlyContext files).layers) input.exported).1]
      else [] := by
  have hlayers : (input.earlyContext files).layers = (input.firstLayers files).1 := by
    rw [firstLayers_eq]
    rfl
  rw [hlayers]
  by_cases henabled : environmentEnabled (input.firstLayers files).1
  · rw [build_of_enabled henabled, if_pos henabled, layers_contextOf]
  · rw [build_of_disabled henabled, if_neg henabled, layers_contextOf, List.append_nil]

/-- There is an environment layer exactly when the layers in front of it say so. -/
theorem exists_environment_iff : (∃ e, Layer.environment e ∈ (input.build files).1.layers) ↔
    environmentEnabled (input.earlyContext files).layers := by
  have hfirst : ∀ e, Layer.environment e ∉ (input.earlyContext files).layers := by
    simp [earlyContext, callerLayer, propertiesLayer]
  rw [layers_build]
  simp only [List.mem_append, hfirst, false_or]
  split
  case isTrue henabled => simp [henabled]
  case isFalse henabled => simp [henabled]

/-- **The environment layer is read by the settings in front of it** as they are read everywhere
else exactly when a blank value of the caller hides no `false` and no environments in the properties
file. -/
theorem readsAlike_iff :
    (input.build files).1.layers = (input.earlyContext files).layers ++
        (if environmentEnabled (input.earlyContext files).layers then
          [.environment (Environment.load files input.projectDir
            (environments (input.earlyContext files).layers) input.exported).1]
        else []) ∧
      (input.ReadsAlike files ↔
        (∀ text, input.callerLayer.Hides (input.propertiesLayer files) Key.environmentEnabled text →
          parseFlag text true) ∧
        ∀ text, input.callerLayer.Hides (input.propertiesLayer files) Key.environments text →
          parseList text = []) := by
  refine ⟨layers_build files input, ?_⟩
  have hpresent : ((∃ e, Layer.environment e ∈ (input.build files).1.layers) ↔
      (input.earlyContext files).flag Key.environmentEnabled true) ↔
        ∀ text, input.callerLayer.Hides (input.propertiesLayer files) Key.environmentEnabled text →
          parseFlag text true := by
    rw [exists_environment_iff, ← Bool.eq_iff_iff, environmentEnabled_eq, Context.flag_eq]
    exact getD_firstValue?_eq_iff fun text h => parseFlag_of_blank h true
  have hactive : environments (input.earlyContext files).layers =
      (input.earlyContext files).list Key.environments ↔
        ∀ text, input.callerLayer.Hides (input.propertiesLayer files) Key.environments text →
          parseList text = [] := by
    rw [environments_eq, Context.list_eq]
    exact getD_firstValue?_eq_iff fun text h => parseList_of_blank h
  rw [← hpresent, ← hactive]
  exact ⟨fun h => ⟨h.present, h.active⟩, fun h => ⟨h.1, h.2⟩⟩

/-- A caller with two blank settings. -/
def blankCaller : ContextInput where
  system := [("apiloom.environment.enabled", ""), ("apiloom.environments", " ")]

/-- A project with a properties file that switches the environment off. -/
def switchedOff : FileTree where
  entries := [(["apiloom.properties"],
    .file (.text "apiloom.environment.enabled=false\napiloom.environments=prod\n"))]

/-- The flag is off and there is an environment; one environment is listed and none is active. -/
theorem not_readsAlike_blankCaller :
    (blankCaller.earlyContext switchedOff).flag Key.environmentEnabled true = false ∧
      (blankCaller.build switchedOff).1.layers.map Layer.name = ["system", "file", "environment"] ∧
      (blankCaller.earlyContext switchedOff).list Key.environments = ["prod"] ∧
      environments (blankCaller.earlyContext switchedOff).layers = [] ∧
      ¬ blankCaller.ReadsAlike switchedOff := by
  have hlist : (blankCaller.earlyContext switchedOff).list Key.environments = ["prod"] := by
    decide +kernel
  have hactive : environments (blankCaller.earlyContext switchedOff).layers = [] := by
    decide +kernel
  refine ⟨by decide +kernel, by decide +kernel, hlist, hactive, fun h => ?_⟩
  have := h.active
  rw [hlist, hactive] at this
  cases this

end ContextInput

end ApiAssembly
