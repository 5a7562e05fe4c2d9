import ApiAssembly.Assembly.Prepared
import ApiAssembly.Proofs.Document.ExpandedKeys
import ApiAssembly.Proofs.Normal.Used

/-!
# Proofs — Document — the info of a prepared output

Before it is named an output is written as a value, its tokens are replaced, and it is read again.
What the info is then goes by the info and the extensions that the output had (`info_prepare`): no
other entry of a document comes to stand under the key `info`, and reading takes the info from that
key alone.
-/

namespace ApiAssembly

namespace Document

/-- Expanding the texts gives an info that goes by the info and the extensions of a document. -/
theorem info_resolveDocument (e : Expander) {d d' r r' : Document} (hinfo : d.info = d'.info)
    (hext : d.extensions = d'.extensions) (h : e.resolveDocument d = .ok r)
    (h' : e.resolveDocument d' = .ok r') : r.info = r'.info := by
  obtain ⟨-, hread, -⟩ := expanded_of_resolveDocument h
  obtain ⟨-, hread', -⟩ := expanded_of_resolveDocument h'
  dsimp only [shape] at hread hread'
  rw [hinfo, hext] at hread
  exact hread.unique hread'

end Document

namespace Context

/-- What is done to a document before its tokens are replaced leaves its info and extensions. -/
theorem arrange_eq (c : Context) (d : Document) :
    (c.arrange d).info = d.info ∧ (c.arrange d).extensions = d.extensions := by
  have hplace : c.place d = { d with paths := (c.place d).paths } := by
    rw [place]
    split
    · rw [Document.underContextPath]
      split <;> rfl
    · rfl
  have hrename : ∀ d, c.rename d = { d with components := (c.rename d).components } := by
    intro d
    rw [rename]
    split <;> rfl
  rw [arrange, hrename, Document.normalize, Document.dropEmptyComponents, Document.dropUnused_eq,
    hplace]
  exact ⟨rfl, rfl⟩

/-- **Outputs with one info and one set of extensions are prepared with one info.** -/
theorem info_prepare (c : Context) {n : Nat} {o o' : OutputDocument} {x x' : Prepared}
    (hinfo : o.document.info = o'.document.info)
    (hext : o.document.extensions = o'.document.extensions) (h : c.prepare n o = .ok x)
    (h' : c.prepare n o' = .ok x') : x.output.document.info = x'.output.document.info := by
  obtain ⟨harr, harre⟩ := c.arrange_eq o.document
  obtain ⟨harr', harre'⟩ := c.arrange_eq o'.document
  rw [prepare] at h h'
  dsimp only at h h'
  split at h
  case h_1 => cases h
  case h_2 r hr =>
    split at h'
    case h_1 => cases h'
    case h_2 r' hr' =>
      obtain rfl := Except.ok.inj h
      obtain rfl := Except.ok.inj h'
      exact Document.info_resolveDocument c.expander (by rw [harr, harr', hinfo])
        (by rw [harre, harre', hext]) hr hr'

end Context

end ApiAssembly
