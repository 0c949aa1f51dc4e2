import Templating.Path

/-!
# Files in memory

A finite collection of files, found by path however the path is spelled.
-/

namespace Templating

/-- Contents of files by path. Of entries for one path the first counts. -/
structure MemoryFiles where
  entries : List (Path × List UInt8)
  deriving Repr, Inhabited

namespace MemoryFiles

/-- No files. -/
def empty : MemoryFiles := ⟨[]⟩

/-- The content of a file. -/
def get? (fs : MemoryFiles) (p : Path) : Option (List UInt8) :=
  (fs.entries.find? fun e => e.1.same p).map Prod.snd

/-- Remove a file. -/
def erase (fs : MemoryFiles) (p : Path) : MemoryFiles :=
  ⟨fs.entries.filter fun e => !e.1.same p⟩

/-- Write a file. -/
def insert (fs : MemoryFiles) (p : Path) (content : List UInt8) : MemoryFiles :=
  ⟨(fs.erase p).entries ++ [(p, content)]⟩

@[simp] theorem get?_empty (p : Path) : empty.get? p = none := rfl

/-- Removing a file removes no other. -/
theorem get?_erase (fs : MemoryFiles) (p q : Path) :
    (fs.erase p).get? q = if p.same q then none else fs.get? q := by
  obtain ⟨es⟩ := fs
  simp only [erase, get?, Path.same, decide_eq_true_eq]
  induction es with
  | nil => simp
  | cons e rest ih =>
    rw [List.filter_cons]
    by_cases hp : e.1.components = p.components
    · by_cases hq : p.components = q.components <;> simp_all
    · by_cases hq : e.1.components = q.components
      · have hn : ¬ q.components = p.components := fun h => hp (hq.trans h)
        simp [hq, hn, Ne.symm hn]
      · simpa [hp, hq] using ih

/-- Writing a file changes no other. -/
theorem get?_insert (fs : MemoryFiles) (p q : Path) (content : List UInt8) :
    (fs.insert p content).get? q = if p.same q then some content else fs.get? q := by
  have hf : (fs.insert p content).get? q =
      ((fs.erase p).get? q).or (if p.same q then some content else none) := by
    simp only [insert, get?, List.find?_append, Option.map_or]
    by_cases h : p.same q <;> simp [h]
  rw [hf, get?_erase]
  by_cases h : p.same q <;> simp [h]

/-- The number of files. -/
def size (fs : MemoryFiles) : Nat := fs.entries.length

/-- Why a file that is not there cannot be read. -/
def absent : String := "no such file"

/-- Read a file. -/
def read (fs : MemoryFiles) (p : Path) : Except String (List UInt8) :=
  match fs.get? p with
  | some content => .ok content
  | none => .error absent

/-- Only files that are there are read. -/
theorem exists_same_of_read {fs : MemoryFiles} {p : Path} {content : List UInt8}
    (h : fs.read p = .ok content) : ∃ q ∈ fs.entries.map Prod.fst, q.same p := by
  unfold read get? at h
  cases hfind : fs.entries.find? fun e => e.1.same p with
  | none =>
    rw [hfind] at h
    cases h
  | some e =>
    have hsame : e.1.same p := by simpa using List.find?_some hfind
    exact ⟨e.1, List.mem_map_of_mem (List.mem_of_find?_eq_some hfind), hsame⟩

/-- Read a file; in place of a missing file there is the content `fallback`. -/
def readOr (fs : MemoryFiles) (fallback : List UInt8) (p : Path) : Except String (List UInt8) :=
  .ok ((fs.get? p).getD fallback)

end MemoryFiles

end Templating
