import Templating.Compilation
import Templating.Files.Memory
import Templating.Proofs.Filter.Rendering
import Templating.Proofs.Linking.Identity
import Templating.Proofs.Linking.References

/-!
# Compiled documents

A linked document refers to no file, and a compiled document has no filters either: both are
self-contained (`linked_selfContained`).
-/

namespace Templating

open Node

/-- The node is of a kind that compiled documents consist of. -/
def Node.isFinal : Node → Bool
  | .group _ | .block .. | .mixin .. | .tag .. | .yield _ | .text .. => true
  | .inherits .. | .includes .. | .includesRaw .. | .filter .. => false

/-- A node that stands for itself is final if it is no filter. -/
theorem Node.isFinal_of_ownKinds {m : Node} (h : OwnKinds (· ≠ "Filter") m.kind) : m.isFinal := by
  obtain ⟨hfilter, hinherits, hincludes, hraw⟩ := h
  cases m with
  | inherits => exact absurd rfl hinherits
  | includes => exact absurd rfl hincludes
  | includesRaw => exact absurd rfl hraw
  | filter => exact absurd rfl hfilter
  | _ => rfl

/-- A compiled document was rendered and linked. -/
theorem finishLoad_eq_ok {filters : FilterSet} {x : Load Node} {log : List Deed} {l : Linked}
    (h : finishLoad filters x = some ⟨log, .ok l⟩) :
    ∃ n n', (filters.render n).result = .ok n' ∧ link n' = .ok l := by
  obtain ⟨y, -, hy⟩ := Option.map_eq_some_iff.mp h
  have hresult : (y.relabel Deed.read >>= finish filters).result = .ok l :=
    congrArg Logged.result hy
  obtain ⟨n, -, hfinish⟩ := Logged.bind_result_eq_ok.mp hresult
  obtain ⟨n', hrender, hlink⟩ := Logged.bind_result_eq_ok.mp hfinish
  exact ⟨n, n', hrender, hlink⟩

/-- What is rendered and linked has only final nodes. -/
theorem Linked.isFinal_of_finishLoad {filters : FilterSet} {x : Load Node} {log : List Deed}
    {l : Linked} (h : finishLoad filters x = some ⟨log, .ok l⟩) {m : Node}
    (hm : m ∈ listingAll l.root.nodes) : m.isFinal := by
  obtain ⟨n, n', hrender, hlink⟩ := finishLoad_eq_ok h
  have hkinds := Linked.ofKinds_link (by simp) (by simp) hlink (FilterSet.ofKinds_render hrender)
  exact isFinal_of_ownKinds (hkinds m hm)

/-- A link that succeeds gives a tree without references to files, at any depth, and a compilation
that succeeds gives a tree without filters as well. -/
theorem linked_selfContained :
    (∀ n l, link n = .ok l → Standalone l.root.nodes) ∧
      (∀ caps filters depth src log l,
        compileSource caps filters depth src = some ⟨log, .ok l⟩ →
          ∀ m ∈ listingAll l.root.nodes, m.isFinal) ∧
      ∀ caps filters depth p log l,
        compileFile caps filters depth p = some ⟨log, .ok l⟩ →
          ∀ m ∈ listingAll l.root.nodes, m.isFinal := by
  refine ⟨fun n l h ↦ ?_, fun _ _ _ _ _ _ h _ ↦ Linked.isFinal_of_finishLoad h,
    fun _ _ _ _ _ _ h _ ↦ Linked.isFinal_of_finishLoad h⟩
  have hkinds := Linked.ofKinds_link (K := fun _ ↦ True) trivial trivial h fun _ _ ↦ trivial
  exact (hkinds.imp fun _ hk ↦ hk.2).standalone

/-- Files of which one inherits from another, which includes a third. -/
def reportFiles : MemoryFiles := ⟨[
  (⟨"/report.tmpl"⟩,
    Utf8.encode "extends \"page.tmpl\" append main \x7b :upper \x7b \"b\" \x7d \x7d"),
  (⟨"/page.tmpl"⟩, Utf8.encode "block main \x7b include \"part.tmpl\" \x7b \"c\" \x7d \x7d"),
  (⟨"/part.tmpl"⟩, Utf8.encode "p \x7b yield \x7d include:base64 \"data.csv\""),
  (⟨"/data.csv"⟩, Utf8.encode "1,2")]⟩

theorem selfContained_reportFiles :
    (∃ l, link copyingDocument = .ok l ∧ Standalone l.root.nodes) ∧
      (∃ log l, compileSource (.standard reportFiles.read (some ⟨"/"⟩)) .builtin 2
          ⟨":upper \x7b \"d\" \x7d include \"/part.tmpl\"", none⟩ = some ⟨log, .ok l⟩ ∧
        ∀ m ∈ listingAll l.root.nodes, m.isFinal) ∧
      ∃ log l, compileFile (.standard reportFiles.read none) .builtin 3 ⟨"/report.tmpl"⟩ =
          some ⟨log, .ok l⟩ ∧
        ∀ m ∈ listingAll l.root.nodes, m.isFinal := by
  refine ⟨⟨_, rfl, linked_selfContained.1 copyingDocument _ rfl⟩, ?_, ?_⟩
  · obtain ⟨log, l, h, -⟩ := Logged.exists_of_any
      (x := compileSource (.standard reportFiles.read (some ⟨"/"⟩)) .builtin 2
        ⟨":upper \x7b \"d\" \x7d include \"/part.tmpl\"", none⟩)
      (P := fun _ ↦ True) (by decide +kernel)
    exact ⟨log, l, h, linked_selfContained.2.1 _ _ _ _ _ _ h⟩
  · obtain ⟨log, l, h, -⟩ := Logged.exists_of_any
      (x := compileFile (.standard reportFiles.read none) .builtin 3 ⟨"/report.tmpl"⟩)
      (P := fun _ ↦ True) (by decide +kernel)
    exact ⟨log, l, h, linked_selfContained.2.2 _ _ _ _ _ _ h⟩

end Templating
