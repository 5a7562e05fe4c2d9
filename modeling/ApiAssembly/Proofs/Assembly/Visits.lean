import ApiAssembly.Proofs.Assembly.Broken
import ApiAssembly.Proofs.Merge.Documents

/-!
# Proofs — Assembly — the base documents of a run

The first base document takes in the additional documents and a later one is merged into what is
there, so the two are not handled alike.  Still the base document of a run, and what the run tells
of documents that are read and merged, goes by the visits alone: each visit adds its own
(`Assembler.visits`), and no other call does (`Assembler.base_told_run`).

Merging does not look at the info (`Document.mergeAll_withInfo`).  So the base documents are merged
as if they had come together, behind the first one and the additional documents of its files, and
the info is that of the last of them that has one (`Assembler.base_run_eq_together`).  The files of
later visits do not count: the additional documents are read and merged once.
-/

namespace ApiAssembly

variable {σ : Type}

/-! ### Merging does not look at the info -/

namespace Document

/-- The document with another info. -/
def withInfo (d : Document) (info : Option Info) : Document := { d with info }

theorem mergeAll_cons (d new : Document) (more : List Document) :
    d.mergeAll (new :: more) =
      (((d.mergeFrom new).mergeAll more).1,
        (d.merge new).2 ++ ((d.mergeFrom new).mergeAll more).2) := rfl

theorem mergeAll_withInfo (d : Document) (info : Option Info) (more : List Document) :
    (d.withInfo info).mergeAll more =
      ((d.mergeAll more).1.withInfo info, (d.mergeAll more).2) := by
  induction more generalizing d with
  | nil => rfl
  | cons new more ih =>
    have hmerge : (d.withInfo info).mergeFrom new = (d.mergeFrom new).withInfo info := rfl
    have hwarnings : ((d.withInfo info).merge new).2 = (d.merge new).2 := rfl
    rw [mergeAll_cons, hmerge, hwarnings, ih, mergeAll_cons]

theorem info_mergeAll (d : Document) (more : List Document) :
    (d.mergeAll more).1.info = d.info := by
  rw [mergeAll_eq_foldl]
  exact foldl_mergeFrom_eq_base Document.info (fun _ _ => rfl) d more

theorem mergeAll_append (d : Document) (more rest : List Document) :
    d.mergeAll (more ++ rest) =
      (((d.mergeAll more).1.mergeAll rest).1,
        (d.mergeAll more).2 ++ ((d.mergeAll more).1.mergeAll rest).2) := by
  induction more generalizing d with
  | nil => rfl
  | cons new more ih =>
    rw [List.cons_append, mergeAll_cons, ih, mergeAll_cons, List.append_assoc]

end Document

/-! ### Warnings about documents -/

namespace Assembler

theorem filter_recorded (a : Assembler) (base : Document) (em : Emitter σ) (s : σ) :
    (a.recorded base em s).filter Warning.concernsDocuments = [] := by
  refine List.filter_eq_nil_iff.mpr fun w hw => ?_
  rcases cases_of_mem_recorded hw with ⟨_, rfl⟩ | ⟨_, rfl⟩ | ⟨_, rfl⟩ <;> exact Bool.false_ne_true

/-- A finish tells of no documents by itself: it reports what waits, or leaves it. -/
theorem filter_told_finish (a : Assembler) (em : Emitter σ) (s : σ) :
    (a.finish em s).told.filter Warning.concernsDocuments ++
        (a.finish em s).assembler.warnings.filter Warning.concernsDocuments =
      a.warnings.filter Warning.concernsDocuments := by
  have hself : a.withWarnings a.warnings = a := rfl
  rcases a.finish_withWarnings em s with ⟨-, hf⟩ | ⟨base, s', fault, -, hf⟩ |
    ⟨-, base, s', outputs, tokens, hf⟩
  · rw [← hself, hf]
    rfl
  · rw [← hself, hf]
    simp [Finish.told, withWarnings, filter_recorded]
  · have htokens : (unresolvedWarnings tokens).filter Warning.concernsDocuments = [] := by
      simp [unresolvedWarnings, List.filter_map, Warning.concernsDocuments, Function.comp_def]
    rw [← hself, hf]
    simp [Finish.told, withWarnings, reported, filter_recorded, htokens]

end Assembler

/-! ### The visits of a run -/

/-- The base document that an input adds, with the files that are there. -/
def Input.visit? : Input → Option (FileTree × Document)
  | .visit files d => some (files, d)
  | _              => none

/-- The base documents that come in some calls, each with the files that are there. -/
def visitsOf (cs : List (Call σ)) : List (FileTree × Document) :=
  (inputsOf cs).filterMap Input.visit?

namespace Assembler

/-- The base document after some visits, and the warnings for them. -/
def visits (c : Context) (base : Option Document) :
    List (FileTree × Document) → Option Document × List Warning
  | []                 => (base, [])
  | (files, d) :: rest =>
    let (base, ws) := nextBase { context := c, base } files d
    let (base, more) := visits c (some base) rest
    (base, ws ++ more)

/-- The base document of a run is that of its visits, and of documents it tells what they do. -/
theorem base_told_run (a : Assembler) (cs : List (Call σ)) :
    (cs.foldl call a).base = (visits a.context a.base (visitsOf cs)).1 ∧
      (a.told cs).filter Warning.concernsDocuments =
        a.warnings.filter Warning.concernsDocuments ++
          (visits a.context a.base (visitsOf cs)).2 := by
  induction cs generalizing a with
  | nil => exact ⟨rfl, (List.append_nil _).symm⟩
  | cons k cs ih =>
    cases k with
    | input i =>
      obtain ⟨hbase, htold⟩ := ih (a.take i)
      cases i with
      | visit files d =>
        have hall : (a.nextBase files d).2.filter Warning.concernsDocuments =
            (a.nextBase files d).2 :=
          List.filter_eq_self.mpr fun w hw => concernsDocuments_of_mem_nextBase hw
        refine ⟨hbase, htold.trans ?_⟩
        have hwarnings : (a.take (.visit files d)).warnings =
            a.warnings ++ (a.nextBase files d).2 := rfl
        rw [hwarnings, List.filter_append, hall, List.append_assoc]
        rfl
      | record e => exact ⟨hbase, htold⟩
      | recordAll es => exact ⟨hbase, htold⟩
      | register group d => exact ⟨hbase, htold⟩
    | finish em s =>
      obtain ⟨hbase, htold⟩ := ih (a.finish em s).assembler
      obtain ⟨at?, ws, hsame⟩ := a.finish_inputs em s
      have hcontext : (a.finish em s).assembler.context = a.context := by rw [hsame]
      have hkept : (a.finish em s).assembler.base = a.base := by rw [hsame]
      rw [hcontext, hkept] at hbase htold
      refine ⟨hbase, ?_⟩
      have hcons : a.told (.finish em s :: cs) =
          (a.finish em s).told ++ (a.finish em s).assembler.told cs := rfl
      rw [hcons, List.filter_append, htold, ← List.append_assoc, filter_told_finish]
      rfl

/-! ### All base documents at once -/

/-- The info of the last document that has one. -/
def lastInfo (ds : List Document) : Option Info := ds.reverse.findSome? Document.info

/-- A later document has the say on the info of what it is merged into. -/
theorem lastInfo_cons_cons {base d e : Document} (h : e.info = d.info.or base.info)
    (ds : List Document) : lastInfo (e :: ds) = lastInfo (base :: d :: ds) := by
  rw [lastInfo, lastInfo, ← foldl_or_eq_findSome?, ← foldl_or_eq_findSome?, List.foldl_cons, h]

theorem lastInfo_congr {d e : Document} (h : e.info = d.info) (ds : List Document) :
    lastInfo (e :: ds) = lastInfo (d :: ds) := by
  rw [lastInfo, lastInfo, ← foldl_or_eq_findSome?, ← foldl_or_eq_findSome?, h]

/-- Visits that find a base document are merged into it, whatever files are there. -/
theorem visits_some (c : Context) (base : Document) (vs : List (FileTree × Document)) :
    visits c (some base) vs =
      (some ((base.mergeAll (vs.map Prod.snd)).1.withInfo (lastInfo (base :: vs.map Prod.snd))),
        (base.mergeAll (vs.map Prod.snd)).2) := by
  induction vs generalizing base with
  | nil =>
    have hinfo : lastInfo [base] = base.info := by
      rw [lastInfo, ← foldl_or_eq_findSome?]
      rfl
    rw [List.map_nil, hinfo]
    rfl
  | cons v vs ih =>
    obtain ⟨files, d⟩ := v
    have hcons : visits c (some base) ((files, d) :: vs) =
        ((visits c (some ((base.mergeFrom d).withInfo (d.info.or base.info))) vs).1,
          (base.merge d).2 ++
            (visits c (some ((base.mergeFrom d).withInfo (d.info.or base.info))) vs).2) := rfl
    have hinfo : lastInfo ((base.mergeFrom d).withInfo (d.info.or base.info) :: vs.map Prod.snd) =
        lastInfo (base :: d :: vs.map Prod.snd) := lastInfo_cons_cons rfl _
    rw [hcons, ih, hinfo, Document.mergeAll_withInfo, List.map_cons, Document.mergeAll_cons]
    rfl

/-- What some base documents make together, and the warnings for it: the first one with the
additional documents of its files, and then the others, with the last info. -/
def together (c : Context) : List (FileTree × Document) → Option Document × List Warning
  | []                  => (none, [])
  | (files, d) :: later =>
    let (more, unreadable) := additional { context := c } files
    let (base, duplicates) := d.mergeAll (more ++ later.map Prod.snd)
    (some (base.withInfo (lastInfo (d :: later.map Prod.snd))), unreadable ++ duplicates)

theorem visits_none (c : Context) (vs : List (FileTree × Document)) :
    visits c none vs = together c vs := by
  cases vs with
  | nil => rfl
  | cons v later =>
    obtain ⟨files, d⟩ := v
    have hcons : visits c none ((files, d) :: later) =
        ((visits c (some (d.mergeAll (additional { context := c } files).1).1) later).1,
          (additional { context := c } files).2 ++
            (d.mergeAll (additional { context := c } files).1).2 ++
            (visits c (some (d.mergeAll (additional { context := c } files).1).1) later).2) := rfl
    rw [hcons, visits_some, together, lastInfo_congr (d.info_mergeAll _)]
    simp only [Document.mergeAll_append, List.append_assoc]

/-- **The base document of a run.**  Whatever other calls come, the base documents are merged in
their order, behind the first one and the additional documents of its files; the info is that of the
last one that has some.  What the run tells of documents, among all of its warnings, is what is told
of this one merge: the additional documents are read and merged once. -/
theorem base_run_eq_together (c : Context) (cs : List (Call σ)) :
    (run c cs).base = (together c (visitsOf cs)).1 ∧
      (told { context := c } cs).filter Warning.concernsDocuments =
        (together c (visitsOf cs)).2 := by
  rw [← visits_none]
  exact base_told_run { context := c } cs

end Assembler

end ApiAssembly
