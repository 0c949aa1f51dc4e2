import Mathlib.Data.List.Forall2
import Templating.Loading

/-!
# Answers of loadings

A loading yields a value, fails with an error, or has no answer because documents are nested too
deep. Each of these is told step by step; so are the files that were read for a value, and that a
loading with a deeper bound gives the same answers (`Load.Le`).
-/

namespace Templating

namespace Load

variable {α β : Type}

/-- The loading ends with a value. -/
def Yields (x : Load α) (a : α) : Prop := ∃ log, x = some ⟨log, .ok a⟩

/-- The loading ends with an error. -/
def Fails (x : Load α) (e : TemplateError) : Prop := ∃ log, x = some ⟨log, .error e⟩

/-- The loading has no answer: documents are nested too deep. -/
def TooDeep (x : Load α) : Prop := x = none

/-- The answer of `x`, if there is one, is the answer of `y` as well. -/
def Le (x y : Load α) : Prop := ∀ z, x = some z → y = some z

theorem Yields.unique {x : Load α} {a b : α} (ha : x.Yields a) (hb : x.Yields b) : a = b := by
  obtain ⟨_, rfl⟩ := ha
  obtain ⟨_, hb⟩ := hb
  cases hb
  rfl

section

variable {log : List Path} {r : Except TemplateError α} {a : α} {e : TemplateError}

@[simp] theorem some_yields : Yields (some ⟨log, r⟩) a ↔ r = .ok a := by
  constructor
  · rintro ⟨_, h⟩
    cases h
    rfl
  · rintro rfl
    exact ⟨log, rfl⟩

@[simp] theorem some_fails : Fails (some ⟨log, r⟩) e ↔ r = .error e := by
  constructor
  · rintro ⟨_, h⟩
    cases h
    rfl
  · rintro rfl
    exact ⟨log, rfl⟩

@[simp] theorem none_not_yields : ¬ Yields none a := by
  rintro ⟨_, h⟩
  cases h

@[simp] theorem none_not_fails : ¬ Fails (α := α) none e := by
  rintro ⟨_, h⟩
  cases h

@[simp] theorem none_tooDeep : TooDeep (α := α) none := rfl

@[simp] theorem some_not_tooDeep : ¬ TooDeep (some ⟨log, r⟩) := by
  intro h
  cases h

end

/-! ### Single steps -/

@[simp] theorem pure_yields {a b : α} : (pure a : Load α).Yields b ↔ a = b :=
  some_yields.trans (by simp)

@[simp] theorem pure_fails {a : α} {e : TemplateError} : ¬ (pure a : Load α).Fails e :=
  some_fails.not.mpr (by simp)

@[simp] theorem pure_not_tooDeep {a : α} : ¬ (pure a : Load α).TooDeep := some_not_tooDeep

@[simp] theorem ofExcept_yields {r : Except TemplateError α} {a : α} :
    (ofExcept r).Yields a ↔ r = .ok a := some_yields

@[simp] theorem ofExcept_fails {r : Except TemplateError α} {e : TemplateError} :
    (ofExcept r).Fails e ↔ r = .error e := some_fails

@[simp] theorem ofExcept_not_tooDeep {r : Except TemplateError α} : ¬ (ofExcept r).TooDeep :=
  some_not_tooDeep

@[simp] theorem read_yields {caps : Capabilities} {p : Path} {raw : List UInt8} :
    (Load.read caps p).Yields raw ↔ caps.read p = .ok raw := by
  rw [Load.read, some_yields]
  cases caps.read p <;> simp [Except.mapError]

theorem read_fails {caps : Capabilities} {p : Path} {e : TemplateError} :
    (Load.read caps p).Fails e ↔
      ∃ reason, caps.read p = .error reason ∧ .read p reason [] = e := by
  rw [Load.read, some_fails]
  cases caps.read p <;> simp [Except.mapError]

@[simp] theorem read_not_tooDeep {caps : Capabilities} {p : Path} :
    ¬ (Load.read caps p).TooDeep := some_not_tooDeep

section

variable {f : TemplateError → TemplateError} {x : Load α} {a : α} {e : TemplateError}

@[simp] theorem mapError_yields : (x.mapError f).Yields a ↔ x.Yields a := by
  match x with
  | none => exact Iff.rfl
  | some ⟨log, .ok b⟩ => exact some_yields.trans some_yields.symm
  | some ⟨log, .error e⟩ => exact some_yields.trans (by simp [Except.mapError])

theorem mapError_fails : (x.mapError f).Fails e ↔ ∃ e', x.Fails e' ∧ f e' = e := by
  match x with
  | none => simp [mapError]
  | some ⟨log, .ok b⟩ => exact some_fails.trans (by simp [Except.mapError])
  | some ⟨log, .error e⟩ => exact some_fails.trans (by simp [Except.mapError])

@[simp] theorem mapError_tooDeep : (x.mapError f).TooDeep ↔ x.TooDeep := by
  cases x with
  | none => exact Iff.rfl
  | some z => exact iff_of_false some_not_tooDeep some_not_tooDeep

end

/-! ### One loading after another -/

section

variable {x : Load α} {f : α → Load β} {b : β} {e : TemplateError}

@[simp] theorem bind_yields : (x >>= f).Yields b ↔ ∃ a, x.Yields a ∧ (f a).Yields b := by
  change (Load.bind x f).Yields b ↔ _
  rcases x with _ | ⟨log, e | a⟩
  · simp [Load.bind]
  · simp [Load.bind]
  · rcases hf : f a with _ | ⟨log', r⟩ <;> simp [Load.bind, hf]

theorem bind_fails :
    (x >>= f).Fails e ↔ x.Fails e ∨ ∃ a, x.Yields a ∧ (f a).Fails e := by
  change (Load.bind x f).Fails e ↔ _
  rcases x with _ | ⟨log, e | a⟩
  · simp [Load.bind]
  · simp [Load.bind]
  · rcases hf : f a with _ | ⟨log', r⟩ <;> simp [Load.bind, hf]

theorem bind_tooDeep :
    (x >>= f).TooDeep ↔ x.TooDeep ∨ ∃ a, x.Yields a ∧ (f a).TooDeep := by
  change (Load.bind x f).TooDeep ↔ _
  rcases x with _ | ⟨log, e | a⟩
  · simp [Load.bind]
  · simp [Load.bind]
  · rcases hf : f a with _ | ⟨log', r⟩ <;> simp [Load.bind, hf]

end

theorem ofExcept_ok (a : α) : ofExcept (.ok a) = (pure a : Load α) := rfl

theorem ofExcept_error_bind (e : TemplateError) (f : α → Load β) :
    ofExcept (.error e) >>= f = ofExcept (.error e) := rfl

/-- What follows matters only for the value that the first loading yields. -/
theorem bind_congr_of_yields {x : Load α} {f g : α → Load β}
    (h : ∀ a, x.Yields a → f a = g a) : x >>= f = x >>= g := by
  change Load.bind x f = Load.bind x g
  match x with
  | none => rfl
  | some ⟨log, .error e⟩ => rfl
  | some ⟨log, .ok a⟩ => simp only [Load.bind, h a ⟨log, rfl⟩]

/-! ### Lists of loadings -/

theorem mapM_yields {f : α → Load β} {as : List α} {bs : List β} :
    (as.mapM f).Yields bs ↔ List.Forall₂ (fun a b ↦ (f a).Yields b) as bs := by
  induction as generalizing bs with
  | nil =>
    rw [List.mapM_nil, pure_yields, List.forall₂_nil_left_iff, eq_comm]
  | cons a as ih =>
    rw [List.mapM_cons, List.forall₂_cons_left_iff]
    simp only [bind_yields, pure_yields, ih]
    constructor
    · rintro ⟨b, hb, bs, hbs, rfl⟩
      exact ⟨b, bs, hb, hbs, rfl⟩
    · rintro ⟨b, bs, hb, hbs, rfl⟩
      exact ⟨b, hb, bs, hbs, rfl⟩

/-- A list of loadings fails with the first of them that does not yield a value. -/
theorem exists_append_of_mapM_fails {f : α → Load β} {as : List α} {e : TemplateError}
    (h : (as.mapM f).Fails e) :
    ∃ before a behind, as = before ++ a :: behind ∧ (∀ b ∈ before, ∃ v, (f b).Yields v) ∧
      (f a).Fails e := by
  induction as with
  | nil => simp at h
  | cons a as ih =>
    simp only [List.mapM_cons, bind_fails, pure_fails, and_false, exists_false, or_false] at h
    rcases h with h | ⟨v, hv, h⟩
    · exact ⟨[], a, as, rfl, List.forall_mem_nil _, h⟩
    · obtain ⟨before, a', behind, rfl, hbefore, h⟩ := ih h
      exact ⟨a :: before, a', behind, rfl, List.forall_mem_cons.mpr ⟨⟨v, hv⟩, hbefore⟩, h⟩

theorem exists_fails_of_mapM {f : α → Load β} {as : List α} {e : TemplateError}
    (h : (as.mapM f).Fails e) : ∃ a ∈ as, (f a).Fails e := by
  obtain ⟨before, a, behind, rfl, -, ha⟩ := exists_append_of_mapM_fails h
  exact ⟨a, by simp, ha⟩

theorem exists_tooDeep_of_mapM {f : α → Load β} {as : List α} (h : (as.mapM f).TooDeep) :
    ∃ a ∈ as, (f a).TooDeep := by
  induction as with
  | nil => simp at h
  | cons a as ih =>
    simp only [List.mapM_cons, bind_tooDeep, pure_not_tooDeep, and_false, exists_false,
      or_false] at h
    rcases h with h | ⟨_, _, h⟩
    · exact ⟨a, List.mem_cons_self, h⟩
    · obtain ⟨a', ha', h⟩ := ih h
      exact ⟨a', List.mem_cons_of_mem _ ha', h⟩

/-! ### Files read -/

/-- The loading reads the files of `log`, in that order, and ends with a value. -/
def YieldsReading (x : Load α) (log : List Path) (a : α) : Prop := x = some ⟨log, .ok a⟩

section

variable {x : Load α} {log : List Path} {a : α}

theorem some_yieldsReading {log' : List Path} {r : Except TemplateError α} :
    YieldsReading (some ⟨log', r⟩) log a ↔ log' = log ∧ r = .ok a :=
  Option.some_inj.trans (Iff.of_eq (Logged.mk.injEq ..))

theorem none_not_yieldsReading : ¬ YieldsReading none log a := nofun

theorem YieldsReading.yields (h : x.YieldsReading log a) : x.Yields a := ⟨log, h⟩

theorem pure_yieldsReading {a b : α} :
    (pure a : Load α).YieldsReading log b ↔ log = [] ∧ a = b :=
  some_yieldsReading.trans (by simp [eq_comm])

theorem ofExcept_yieldsReading {r : Except TemplateError α} :
    (ofExcept r).YieldsReading log a ↔ log = [] ∧ r = .ok a :=
  some_yieldsReading.trans (by simp [eq_comm])

theorem read_yieldsReading {caps : Capabilities} {p : Path} {raw : List UInt8} :
    (Load.read caps p).YieldsReading log raw ↔ log = [p] ∧ caps.read p = .ok raw := by
  rw [Load.read, some_yieldsReading]
  cases caps.read p <;> simp [Except.mapError, eq_comm]

theorem mapError_yieldsReading {f : TemplateError → TemplateError} :
    (x.mapError f).YieldsReading log a ↔ x.YieldsReading log a := by
  match x with
  | none => exact Iff.rfl
  | some ⟨log', .ok b⟩ => exact Iff.rfl
  | some ⟨log', .error e⟩ =>
    exact some_yieldsReading.trans (by simp [some_yieldsReading, Except.mapError])

/-- What both loadings read is kept in order. -/
theorem bind_yieldsReading {f : α → Load β} {b : β} :
    (x >>= f).YieldsReading log b ↔
      ∃ first a rest, x.YieldsReading first a ∧ (f a).YieldsReading rest b ∧
        log = first ++ rest := by
  change (Load.bind x f).YieldsReading log b ↔ _
  rcases x with _ | ⟨first, e | a⟩
  · simp [Load.bind, none_not_yieldsReading]
  · simp [Load.bind, some_yieldsReading]
  · rcases hf : f a with _ | ⟨rest, r⟩
    · simp [Load.bind, hf, some_yieldsReading, none_not_yieldsReading]
    · simp [Load.bind, hf, some_yieldsReading, eq_comm, and_comm]

/-- What a list of loadings reads, if it can be told from the value of each of them. -/
theorem map_of_mapM_yieldsReading {γ : Type} {k : Path → γ} {g : β → List γ} {f : α → Load β}
    (hf : ∀ a log b, (f a).YieldsReading log b → log.map k = g b) {as : List α} {bs : List β}
    (h : (as.mapM f).YieldsReading log bs) : log.map k = bs.flatMap g := by
  induction as generalizing log bs with
  | nil =>
    rw [List.mapM_nil, pure_yieldsReading] at h
    obtain ⟨rfl, rfl⟩ := h
    rfl
  | cons a as ih =>
    simp only [List.mapM_cons, bind_yieldsReading, pure_yieldsReading] at h
    obtain ⟨first, b, _, hb, ⟨rest, bs, _, hbs, ⟨rfl, rfl⟩, rfl⟩, rfl⟩ := h
    rw [List.flatMap_cons, List.map_append, List.append_nil, hf a first b hb, ih hbs]

end

/-! ### More answers -/

theorem Le.refl (x : Load α) : Le x x := fun _ h ↦ h

theorem Le.yields {x y : Load α} (h : Le x y) {a : α} (ha : x.Yields a) : y.Yields a := by
  obtain ⟨log, ha⟩ := ha
  exact ⟨log, h _ ha⟩

theorem Le.bind {x y : Load α} {f g : α → Load β} (hx : Le x y)
    (hf : ∀ a, Le (f a) (g a)) : Le (x >>= f) (y >>= g) := by
  intro z hz
  change Load.bind x f = some z at hz
  change Load.bind y g = some z
  match x with
  | none => cases hz
  | some ⟨log, .error e⟩ =>
    rw [hx _ rfl]
    exact hz
  | some ⟨log, .ok a⟩ =>
    rw [hx _ rfl]
    simp only [Load.bind] at hz ⊢
    cases h : f a with
    | none =>
      rw [h] at hz
      cases hz
    | some y =>
      rw [hf a _ h]
      rw [h] at hz
      exact hz

theorem Le.mapError {x y : Load α} (h : Le x y) (f : TemplateError → TemplateError) :
    Le (x.mapError f) (y.mapError f) := by
  intro z hz
  obtain ⟨w, hw, rfl⟩ := Option.map_eq_some_iff.mp hz
  exact Option.map_eq_some_iff.mpr ⟨w, h w hw, rfl⟩

theorem Le.mapM {f g : α → Load β} (h : ∀ a, Le (f a) (g a)) (as : List α) :
    Le (as.mapM f) (as.mapM g) := by
  induction as with
  | nil => exact .refl _
  | cons a as ih =>
    rw [List.mapM_cons, List.mapM_cons]
    exact (h a).bind fun _ ↦ ih.bind fun _ ↦ .refl _

end Load

end Templating
