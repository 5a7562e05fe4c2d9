import ApiAssembly.Assembly.Assembler

/-!
# Proofs — Assembly — what is told of the inputs

Warnings wait for a report from two sources before anything is emitted.  Those that come with a
context are for configuration that cannot be read (`ContextInput.exists_of_mem_build`), and those
of a base document concern the documents that are read and merged
(`Assembler.concernsDocuments_of_mem_nextBase`).
-/

namespace ApiAssembly

variable {files : FileTree} {w : Warning}

/-! ### Warnings about configuration -/

namespace Environment

/-- An application file that cannot be read is named, and no other warning is added. -/
theorem exists_of_mem_loadFile {dir : String} {read : Keyed String × List Warning}
    {file : String × SourceFormat} (h : w ∈ (loadFile files dir read file).2) :
    w ∈ read.2 ∨ ∃ path, w = .unreadableConfig path := by
  unfold loadFile at h
  dsimp only at h
  split at h
  · exact .inl h
  · split at h
    · exact .inl h
    · exact (List.mem_append.mp h).imp_right fun h => ⟨_, List.mem_singleton.mp h⟩

/-- The warnings of an environment are for files that cannot be read. -/
theorem exists_of_mem_load {dir : String} {environments : List String}
    {exported : List (String × String)} (h : w ∈ (load files dir environments exported).2) :
    ∃ path, w = .unreadableConfig path := by
  have fold : ∀ (fs : List (String × SourceFormat)) (read : Keyed String × List Warning),
      w ∈ (fs.foldl (loadFile files dir) read).2 →
        w ∈ read.2 ∨ ∃ path, w = .unreadableConfig path := by
    intro fs
    induction fs with
    | nil => exact fun _ h => .inl h
    | cons f fs ih => exact fun read h => (ih _ h).elim exists_of_mem_loadFile .inr
  have hfold := fold (fileNames environments) ([], [])
  rw [load] at h
  generalize (fileNames environments).foldl (loadFile files dir) ([], []) = read at h hfold
  exact (hfold h).resolve_left List.not_mem_nil

end Environment

namespace ContextInput

/-- The warnings of a properties file say that it cannot be read. -/
theorem exists_of_mem_loadProperties {path : String} (h : w ∈ (loadProperties files path).2) :
    ∃ path, w = .unreadableConfig path := by
  unfold loadProperties at h
  split at h
  · cases h
  · split at h
    · cases h
    · exact ⟨path, List.mem_singleton.mp h⟩

/-- All that is told of a context is configuration that cannot be read. -/
theorem exists_of_mem_build {input : ContextInput} (h : w ∈ (input.build files).2) :
    ∃ path, w = .unreadableConfig path := by
  unfold build at h
  dsimp only at h
  split at h
  · rcases List.mem_append.mp h with h | h
    · exact exists_of_mem_loadProperties h
    · exact Environment.exists_of_mem_load h
  · exact exists_of_mem_loadProperties h

end ContextInput

/-! ### Warnings about documents -/

/-- Whether a problem is one of documents that are read or merged. -/
def Warning.concernsDocuments : Warning → Bool
  | .unreadableDocument _ _ => true
  | .notADirectory _        => true
  | .duplicatePath _        => true
  | _                       => false

theorem Document.concernsDocuments_of_mem_loadAll {sources : List (String × SourceFormat)}
    (h : w ∈ (loadAll files sources).2) : w.concernsDocuments := by
  induction sources with
  | nil => cases h
  | cons source sources ih =>
    obtain ⟨path, format⟩ := source
    rw [loadAll] at h
    dsimp only at h
    split at h
    · exact ih h
    · rcases List.mem_cons.mp h with rfl | h
      · rfl
      · exact ih h

namespace Assembler

variable {a : Assembler}

/-- The warnings for additional documents concern documents. -/
theorem concernsDocuments_of_mem_additional (h : w ∈ (a.additional files).2) :
    w.concernsDocuments := by
  unfold additional at h
  split at h
  case h_1 dir _ =>
    unfold Document.loadFolder at h
    split at h
    · exact Document.concernsDocuments_of_mem_loadAll h
    · obtain rfl := List.mem_singleton.mp h
      rfl
  case h_2 => cases h

/-- All that is told of a base document concerns documents. -/
theorem concernsDocuments_of_mem_nextBase {d : Document} (h : w ∈ (a.nextBase files d).2) :
    w.concernsDocuments := by
  unfold nextBase at h
  split at h
  · rcases List.mem_append.mp h with h | h
    · exact concernsDocuments_of_mem_additional h
    · obtain ⟨path, rfl⟩ := Document.exists_of_mem_mergeAll h
      rfl
  · obtain ⟨path, rfl⟩ := Document.exists_of_mem_merge h
    rfl

end Assembler

end ApiAssembly
