import ApiAssembly.Proofs.Assembly.Faults
import ApiAssembly.Proofs.Assembly.Unresolved
import ApiAssembly.Proofs.Files.Broken

/-!
# Proofs — Assembly — runs over files that cannot be read

Two runs take the same calls, one over a tree with some files that cannot be read, the other over
the tree without them.  Their assemblers stay the same but for the warnings that wait, where the
first one has one more for each look at such a file (`SameBut`): an input adds what it reads to both
(`SameBut.take`), and a finish reports the difference or leaves it (`SameBut.finish`).

So the files concern nothing but themselves (`run_without_broken`): the context is the same, every
finish hands over the same renderings and reports the same outputs, and all that the runs tell
(`told`) differs by one warning for each look at one of the files.  A file that is looked at twice
is reported twice, and the emitter must not meet the files (`not_one_each`).
-/

namespace ApiAssembly

variable {σ τ : Type}

/-! ### Warnings that report no look -/

theorem Lookless.append {ws ws' : List Warning} (h : Lookless ws) (h' : Lookless ws') :
    Lookless (ws ++ ws') := fun w hw =>
  (List.mem_append.mp hw).elim (h w) (h' w)

theorem Document.lookless_merge (d new : Document) : Lookless (d.merge new).2 := fun _ hw =>
  have ⟨_, hpath⟩ := exists_of_mem_merge hw
  hpath ▸ rfl

theorem Document.lookless_mergeAll (d : Document) (more : List Document) :
    Lookless (d.mergeAll more).2 := fun _ hw =>
  have ⟨_, hpath⟩ := exists_of_mem_mergeAll hw
  hpath ▸ rfl

theorem lookless_unresolvedWarnings (tokens : List String) :
    Lookless (unresolvedWarnings tokens) :=
  List.forall_mem_map.mpr fun _ _ => rfl

theorem Assembler.lookless_recorded (a : Assembler) (base : Document) (em : Emitter σ) (s : σ) :
    Lookless (a.recorded base em s) := by
  intro w hw
  rcases cases_of_mem_recorded hw with ⟨_, rfl⟩ | ⟨_, rfl⟩ | ⟨_, rfl⟩ <;> rfl

/-! ### Runs over a tree -/

/-- The input with other files that are there. -/
def Input.within (files : FileTree) : Input → Input
  | .visit _ d => .visit files d
  | i          => i

/-- The call with other files that are there. -/
def Call.within (files : FileTree) : Call σ → Call σ
  | .input i     => .input (i.within files)
  | .finish em s => .finish em s

/-- The warnings that a finish reports. -/
def Finish.told (f : Finish σ) : List Warning :=
  match f.result with
  | .ok report => report.warnings
  | .error _   => []

namespace Assembler

/-- All that a run tells: the warnings of its reports, and those that wait for one at its end. -/
def told (a : Assembler) : List (Call σ) → List Warning
  | []                 => a.warnings
  | .input i :: cs     => (a.take i).told cs
  | .finish em s :: cs => (a.finish em s).told ++ (a.finish em s).assembler.told cs

/-- The looks at additional documents in a run: those of the first base document that comes. -/
def looks (a : Assembler) (files : FileTree) (cs : List (Call σ)) : List Look :=
  if a.base.isNone && (inputsOf cs).any fun i => i.base?.isSome then
    a.context.documentLooks files
  else []

/-- The second assembler is the first one but for the warnings that wait, of which the first one
has one more for each look at one of some files. -/
inductive SameBut (files : FileTree) (gone : List Location) (looks : List Look) :
    Assembler → Assembler → Prop where
  | intro (a : Assembler) {more rest : List Warning} (h : OnePerLook files gone looks more rest) :
      SameBut files gone looks (a.withWarnings more) (a.withWarnings rest)

variable {files : FileTree} {gone : List Location} {ls : List Look} {a b : Assembler}

/-- An input makes its looks at the files, and leaves the others. -/
theorem looks_cons_input (a : Assembler) (files : FileTree) (i : Input) (cs : List (Call σ)) :
    a.looks files (.input i :: cs) =
      a.looks files [(.input i : Call σ)] ++ (a.take (i.within files)).looks files cs := by
  have hcons (cs : List (Call σ)) : inputsOf (.input i :: cs) = i :: inputsOf cs := rfl
  have hbase : (a.take (i.within files)).base.isSome = (a.base.isSome || i.base?.isSome) := by
    rw [isSome_base_take]
    cases i <;> rfl
  simp only [looks, hcons, List.any_cons, context_take, ← Option.not_isSome, hbase]
  cases a.base.isSome <;> cases i.base?.isSome <;> simp [inputsOf]

theorem looks_visit (a : Assembler) (files given : FileTree) (d : Document) :
    a.looks files [(.input (.visit given d) : Call σ)] =
      if a.base.isNone then a.context.documentLooks files else [] := by
  simp [looks, inputsOf, Input.base?]

theorem looks_of_no_base {i : Input} (h : i.base? = none) :
    a.looks files [(.input i : Call σ)] = [] := by
  simp [looks, inputsOf, h]

theorem looks_cons_finish (a : Assembler) (files : FileTree) (em : Emitter σ) (s : σ)
    (cs : List (Call σ)) :
    a.looks files (.finish em s :: cs) = (a.finish em s).assembler.looks files cs := by
  obtain ⟨at?, ws, h⟩ := a.finish_inputs em s
  rw [h]
  rfl

/-- The first base document takes in the same additional documents. -/
theorem nextBase_without (a : Assembler) (hfiles : files.HoldsFiles gone)
    (hbroken : ∀ source ∈ a.context.documentFiles files, files.leadsInto gone source.1 →
      Document.ofSource? files source = none) (d : Document) :
    (a.nextBase (files.without gone) d).1 = (a.nextBase files d).1 ∧
      OnePerLook files gone (if a.base.isNone then a.context.documentLooks files else [])
        (a.nextBase files d).2 (a.nextBase (files.without gone) d).2 := by
  have hadditional : (a.additional (files.without gone)).1 = (a.additional files).1 ∧
      OnePerLook files gone (a.context.documentLooks files) (a.additional files).2
        (a.additional (files.without gone)).2 := by
    rw [additional, additional]
    cases hdir : a.context.additionalFiles? with
    | none =>
      have hnone : a.context.documentLooks files = [] := by
        rw [Context.documentLooks, Context.documentFiles, hdir]
        rfl
      rw [hnone]
      exact ⟨rfl, .nil⟩
    | some dir => exact Context.loadFolder_without hfiles hbroken hdir
  obtain ⟨hdocuments, hwarnings⟩ := hadditional
  rw [nextBase, nextBase]
  cases a.base with
  | none =>
    dsimp only
    rw [hdocuments]
    exact ⟨rfl, hwarnings.append_lookless (d.lookless_mergeAll (a.additional files).1)⟩
  | some base => exact ⟨rfl, .of_lookless (base.lookless_merge d)⟩

theorem visit_withWarnings (a : Assembler) (ws : List Warning) (files : FileTree) (d : Document) :
    (a.withWarnings ws).visit files d =
      ({ a with base := some (a.nextBase files d).1, observed := a.observed + 1 } :
        Assembler).withWarnings (ws ++ (a.nextBase files d).2) := rfl

namespace SameBut

theorem context (h : SameBut files gone ls a b) : b.context = a.context := by
  obtain ⟨a, -⟩ := h
  rfl

/-- What a finish does is the same but for the warnings: those of its report and those that it
leaves waiting share the looks between them. -/
theorem finish (h : SameBut files gone ls a b) (em : Emitter σ) (s : σ) :
    (b.finish em s).state = (a.finish em s).state ∧
      (b.finish em s).result.map Report.outputs = (a.finish em s).result.map Report.outputs ∧
      ∃ reported waiting, ls = reported ++ waiting ∧
        OnePerLook files gone reported (a.finish em s).told (b.finish em s).told ∧
        SameBut files gone waiting (a.finish em s).assembler (b.finish em s).assembler := by
  obtain ⟨a, h⟩ := h
  rcases a.finish_withWarnings em s with ⟨-, hf⟩ | ⟨base, s', fault, -, hf⟩ |
    ⟨-, base, s', outputs, tokens, hf⟩
  · -- A finish that is skipped leaves all of them waiting.
    rw [hf, hf]
    exact ⟨rfl, rfl, [], ls, rfl, .nil, .intro a h⟩
  · -- So does a fault, with the warnings that it recorded behind them.
    rw [hf, hf]
    exact ⟨rfl, rfl, [], ls, rfl, .nil,
      .intro a (h.append_lookless (a.lookless_recorded base em s))⟩
  · rw [hf, hf]
    have hown : Lookless (a.recorded base em s ++ unresolvedWarnings tokens) :=
      (a.lookless_recorded base em s).append (lookless_unresolvedWarnings tokens)
    exact ⟨rfl, rfl, ls, [], (List.append_nil ls).symm, h.append_lookless hown,
      .intro a.reported .nil⟩

/-- Both hand over the same, to whatever emitters that have a destination for it. -/
theorem handed_eq (h : SameBut files gone ls a b) {em em' : Emitter σ} {s s' : σ}
    (hd : a.Delivers em s) (hd' : b.Delivers em' s') : b.handed em' s' = a.handed em s := by
  obtain ⟨a, -⟩ := h
  by_cases hr : a.Ready
  · have hready (ws : List Warning) := (a.ready_withWarnings ws).mpr hr
    obtain ⟨base, hb⟩ := Option.isSome_iff_exists.mp hr.base
    have hbase (ws : List Warning) : (a.withWarnings ws).base = some base := hb
    rw [handed_eq_renderings (hready _) (hbase _) hd,
      handed_eq_renderings (hready _) (hbase _) hd']
    rfl
  · rw [handed_of_not_ready (mt (a.ready_withWarnings _).mp hr),
      handed_of_not_ready (mt (a.ready_withWarnings _).mp hr)]

variable (hfiles : files.HoldsFiles gone)

include hfiles

/-- An input adds the same but for the warnings of what it reads. -/
theorem take (h : SameBut files gone ls a b)
    (hbroken : ∀ source ∈ a.context.documentFiles files, files.leadsInto gone source.1 →
      Document.ofSource? files source = none) (i : Input) :
    SameBut files gone (ls ++ a.looks files [(.input i : Call σ)]) (a.take (i.within files))
      (b.take (i.within (files.without gone))) := by
  obtain ⟨a, h⟩ := h
  cases i with
  | visit given d =>
    obtain ⟨hbase, hmore⟩ := a.nextBase_without hfiles hbroken d
    rw [looks_visit, Input.within, Input.within, Assembler.take, Assembler.take,
      visit_withWarnings, visit_withWarnings, hbase]
    exact .intro _ (h.append hmore)
  | record e =>
    rw [looks_of_no_base rfl, List.append_nil]
    exact .intro (a.record [e]) h
  | recordAll es =>
    rw [looks_of_no_base rfl, List.append_nil]
    exact .intro (a.record es) h
  | register group d =>
    rw [looks_of_no_base rfl, List.append_nil]
    exact .intro (a.register group d) h

/-- **Runs over files that cannot be read**: what they tell differs by one warning for each look,
and they end in assemblers that differ in this way. -/
theorem told (h : SameBut files gone ls a b)
    (hbroken : ∀ source ∈ a.context.documentFiles files, files.leadsInto gone source.1 →
      Document.ofSource? files source = none) (cs : List (Call σ)) :
    OnePerLook files gone (ls ++ a.looks files cs) (a.told (cs.map (Call.within files)))
        (b.told (cs.map (Call.within (files.without gone)))) ∧
      ∃ waiting, SameBut files gone waiting ((cs.map (Call.within files)).foldl call a)
        ((cs.map (Call.within (files.without gone))).foldl call b) := by
  induction cs generalizing a b ls with
  | nil =>
    have hnil : a.looks files ([] : List (Call σ)) = [] := by simp [looks, inputsOf]
    rw [hnil, List.append_nil]
    obtain ⟨a, hwarnings⟩ := h
    exact ⟨hwarnings, ls, .intro a hwarnings⟩
  | cons k cs ih =>
    cases k with
    | input i =>
      rw [looks_cons_input, ← List.append_assoc]
      refine ih (h.take hfiles hbroken i) ?_
      rw [context_take]
      exact hbroken
    | finish em s =>
      obtain ⟨-, -, reported, waiting, rfl, htold, hnext⟩ := h.finish em s
      obtain ⟨at?, ws, hsame⟩ := a.finish_inputs em s
      have hcontext : (a.finish em s).assembler.context = a.context := by rw [hsame]
      obtain ⟨hlater, hend⟩ := ih hnext (hcontext.symm ▸ hbroken)
      rw [looks_cons_finish, List.append_assoc]
      exact ⟨htold.append hlater, hend⟩

end SameBut

/-- **A file that cannot be read concerns nothing but itself.**  Let some files be unreadable in
every look at them.  Without them the context is the same; and whatever calls come, every finish
hands over the same renderings, leaves the same state of its emitter, and reports the same outputs
or the same fault.  It hands over the same to an emitter in another state as well, such as one that
writes into the tree without the files, as long as both have a destination.  All that the run tells
differs by one warning for each look at one of the files: for the context, and for the additional
documents when the first base document comes. -/
theorem run_without_broken {input : ContextInput} (h : input.Broken files gone)
    (cs : List (Call σ)) :
    let run (t : FileTree) := (cs.map (Call.within t)).foldl call (started (input.build t))
    (run (files.without gone)).context = (run files).context ∧
    (∀ (em : Emitter τ) (s : τ),
      (run (files.without gone)).handed em s = (run files).handed em s ∧
      ((run (files.without gone)).finish em s).state = ((run files).finish em s).state ∧
      ((run (files.without gone)).finish em s).result.map Report.outputs =
        ((run files).finish em s).result.map Report.outputs) ∧
    (∀ (em em' : Emitter τ) (s s' : τ), (run files).Delivers em s →
      (run (files.without gone)).Delivers em' s' →
      (run (files.without gone)).handed em' s' = (run files).handed em s) ∧
    OnePerLook files gone
      (input.configLooks files ++
        if (inputsOf cs).any (fun i => i.base?.isSome) then
          (input.build files).1.documentLooks files
        else [])
      ((started (input.build files)).told (cs.map (Call.within files)))
      ((started (input.build (files.without gone))).told
        (cs.map (Call.within (files.without gone)))) := by
  intro run
  obtain ⟨hcontext, hwarnings⟩ := h.build_without
  have hstart : SameBut files gone (input.configLooks files) (started (input.build files))
      (started (input.build (files.without gone))) := by
    rw [started, started, hcontext]
    exact .intro { context := (input.build files).1 } hwarnings
  obtain ⟨htold, waiting, hend⟩ := hstart.told h.toHoldsFiles h.document cs
  refine ⟨hend.context, fun em s => ?_, fun em em' s s' => hend.handed_eq, htold⟩
  obtain ⟨hstate, houtputs, -⟩ := hend.finish em s
  refine ⟨?_, hstate, houtputs⟩
  exact congrArg Prod.snd (hend.finish em.recording (s, [])).1

/-- A project with a directory of additional documents and an active environment. -/
def brokenProject : ContextInput where
  system := [("apiloom.additional.files", "docs"), ("apiloom.environments", "prod")]

/-- Files of the project: of each kind one that cannot be read, with others around it. -/
def brokenFiles : FileTree where
  entries :=
    [(["apiloom.properties"], .file (.binary [255])),
      (["application.json"], .file (.text "[")),
      (["application-prod.json"], .file (.text "\x7b\"apiloom.filename\":\"pets\"\x7d")),
      (["docs"], .directory),
      (["docs", "a.json"], .file (.text "\x7b\"paths\":\x7b\"/a\":\x7b\x7d\x7d\x7d")),
      (["docs", "b.json"], .file (.text "\x7b\"paths\":[]\x7d")),
      (["docs", "c.json"], .file (.text "\x7b\"paths\":\x7b\"/c\":\x7b\x7d\x7d\x7d"))]

/-- The files that cannot be read. -/
def brokenLocations : List Location :=
  [["apiloom.properties"], ["application.json"], ["docs", "b.json"]]

theorem documentFiles_brokenProject :
    (brokenProject.build brokenFiles).1.documentFiles brokenFiles =
      [("./docs/a.json", .json), ("./docs/b.json", .json), ("./docs/c.json", .json)] := by
  have hdir : (brokenProject.build brokenFiles).1.additionalFiles? = some "./docs" := by
    decide +kernel
  have hthere : brokenFiles.isDirectory "./docs" := by decide +kernel
  have hpaths : (brokenFiles.namesIn "./docs").map (PathText.join "./docs") =
      ["./docs/a.json", "./docs/b.json", "./docs/c.json"] := by
    decide +kernel
  rw [Context.documentFiles, hdir]
  dsimp only
  rw [if_pos hthere, Document.sourcesIn, hpaths, sortedTexts_of_pairwise (by decide +kernel)]
  decide +kernel

theorem broken_brokenProject : brokenProject.Broken brokenFiles brokenLocations where
  file := by decide +kernel
  named := by decide +kernel
  properties := by decide +kernel
  application := by decide +kernel
  document := by
    rw [documentFiles_brokenProject]
    decide +kernel

/-- A run of the project with a base document. -/
def brokenRun : List (Call (List (String × String))) := [.input (.visit {} petsDocument)]

/-- Without the three files the project hands over the same, and has one warning less for each. -/
theorem run_without_brokenProject :
    let run (t : FileTree) :=
      (brokenRun.map (Call.within t)).foldl call (started (brokenProject.build t))
    brokenProject.Broken brokenFiles brokenLocations ∧
    (run (brokenFiles.without brokenLocations)).context = (run brokenFiles).context ∧
    (run (brokenFiles.without brokenLocations)).handed Emitter.memory [] =
      (run brokenFiles).handed Emitter.memory [] ∧
    OnePerLook brokenFiles brokenLocations
      (brokenProject.configLooks brokenFiles ++
        (brokenProject.build brokenFiles).1.documentLooks brokenFiles)
      ((started (brokenProject.build brokenFiles)).told
        (brokenRun.map (Call.within brokenFiles)))
      ((started (brokenProject.build (brokenFiles.without brokenLocations))).told
        (brokenRun.map (Call.within (brokenFiles.without brokenLocations)))) := by
  obtain ⟨hcontext, hfinish, -, htold⟩ := run_without_broken broken_brokenProject brokenRun
  exact ⟨broken_brokenProject, hcontext, (hfinish Emitter.memory []).1, htold⟩

/-- A project that names an environment twice. -/
def prodTwice : ContextInput where
  system := [("apiloom.environments", "prod,prod")]

/-- The application file of the environment, which cannot be read. -/
def prodFiles : FileTree where
  entries := [(["application-prod.json"], .file (.text "["))]

/-- A project whose additional documents are in the project directory. -/
def sharedProject : ContextInput where
  system := [("apiloom.additional.files", ".")]

/-- An application file that is no document. -/
def sharedFiles : FileTree where
  entries := [(["application.json"],
    .file (.text "\x7b\"paths\":[],\"apiloom\":\x7b\"filename\":\"pets\"\x7d\x7d"))]

/-- A project with a directory of additional documents. -/
def docsProject : ContextInput where
  system := [("apiloom.additional.files", "docs")]

/-- The directory, with a file that cannot be read. -/
def docsFiles : FileTree where
  entries := [(["docs"], .directory), (["docs", "a.json"], .file (.text "x"))]

/-- A run that is to write its output into a directory of the name of that file. -/
def docsRun (t : FileTree) : Finish FileTree :=
  ((started (docsProject.build t)).visit t petsDocument).finish
    (Emitter.files (some "docs/a.json/pets.yml") none) t

/-- A file is reported once for each look, so that it can be reported twice.  A file that cannot be
read in one look can count in another, and one that is in the way of an output concerns the
emitter. -/
theorem not_one_each :
    (prodTwice.Broken prodFiles [["application-prod.json"]] ∧
      (prodTwice.build prodFiles).2 =
        [.unreadableConfig "./application-prod.json", .unreadableConfig "./application-prod.json"] ∧
      (prodTwice.build (prodFiles.without [["application-prod.json"]])).2 = []) ∧
    (("././application.json", .json) ∈
        (sharedProject.build sharedFiles).1.documentFiles sharedFiles ∧
      Document.ofSource? sharedFiles ("././application.json", .json) = none ∧
      (sharedProject.build sharedFiles).1.filename? = some "pets" ∧
      (sharedProject.build (sharedFiles.without [["application.json"]])).1.filename? = none) ∧
    docsProject.Broken docsFiles [["docs", "a.json"]] ∧
    (docsRun docsFiles).told =
      [.unreadableDocument "./docs/a.json" .json, .emitFailed "pets-1.0.yml"] ∧
    (docsRun (docsFiles.without [["docs", "a.json"]])).told = [] := by
  refine ⟨⟨⟨⟨?_, ?_⟩, ?_, ?_, ?_⟩, ?_, ?_⟩, ⟨?_, ?_, ?_, ?_⟩, ⟨⟨?_, ?_⟩, ?_, ?_, ?_⟩, ?_, ?_⟩ <;>
    decide +kernel

end Assembler

end ApiAssembly
