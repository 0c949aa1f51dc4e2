import Templating.Error

/-!
# Logged results

A result or an error, with a list of what was done to get there. The list is kept when an error
ends the work.
-/

namespace Templating

/-- A result, and what was done on the way to it. -/
structure Logged (ω α : Type) where
  log : List ω
  result : Except TemplateError α

namespace Logged

variable {ω α β : Type}

/-- A value that nothing had to be done for. -/
protected def pure (a : α) : Logged ω α := ⟨[], .ok a⟩

/-- One step after another; what both did is kept in order. -/
protected def bind (x : Logged ω α) (f : α → Logged ω β) : Logged ω β :=
  match x.result with
  | .ok a => ⟨x.log ++ (f a).log, (f a).result⟩
  | .error e => ⟨x.log, .error e⟩

instance : Monad (Logged ω) where
  pure := Logged.pure
  bind := Logged.bind

instance : LawfulMonad (Logged ω) := LawfulMonad.mk' (Logged ω)
  (fun x => by
    obtain ⟨log, result⟩ := x
    cases result <;> simp [Functor.map, Logged.bind, Logged.pure])
  (fun a f => by simp [pure, bind, Logged.bind, Logged.pure])
  (fun x f g => by
    obtain ⟨log, result⟩ := x
    cases result with
    | error e => rfl
    | ok a =>
      simp only [bind, Logged.bind]
      cases (f a).result <;> simp)

theorem bind_result_eq_ok {x : Logged ω α} {f : α → Logged ω β} {b : β} :
    (x >>= f).result = .ok b ↔ ∃ a, x.result = .ok a ∧ (f a).result = .ok b := by
  change (Logged.bind x f).result = .ok b ↔ _
  unfold Logged.bind
  cases x.result <;> simp

theorem bind_result_eq_error {x : Logged ω α} {f : α → Logged ω β} {e : TemplateError} :
    (x >>= f).result = .error e ↔
      x.result = .error e ∨ ∃ a, x.result = .ok a ∧ (f a).result = .error e := by
  change (Logged.bind x f).result = .error e ↔ _
  unfold Logged.bind
  cases x.result <;> simp

theorem pure_result_eq_ok {a b : α} : (pure a : Logged ω α).result = .ok b ↔ a = b := by
  change Except.ok a = .ok b ↔ _
  rw [Except.ok.injEq]

/-- Running tells whether there is a result with a property. -/
theorem exists_of_any {x : Option (Logged ω α)} {P : α → Prop} [DecidablePred P]
    (h : x.any fun y => y.result.toOption.any fun a => decide (P a)) :
    ∃ log a, x = some ⟨log, .ok a⟩ ∧ P a := by
  match x with
  | some ⟨log, .ok a⟩ => exact ⟨log, a, rfl, of_decide_eq_true h⟩
  | some ⟨_, .error _⟩ => cases h
  | none => cases h

/-- Running tells whether there is an error with a property. -/
theorem exists_error_of_any {x : Option (Logged ω α)} {P : TemplateError → Prop} [DecidablePred P]
    (h : x.any fun y => match y.result with
      | .ok _ => false
      | .error e => decide (P e)) :
    ∃ log e, x = some ⟨log, .error e⟩ ∧ P e := by
  match x with
  | some ⟨log, .error e⟩ => exact ⟨log, e, rfl, of_decide_eq_true h⟩
  | some ⟨_, .ok _⟩ => cases h
  | none => cases h

/-- End with an error. -/
def fail (e : TemplateError) : Logged ω α := ⟨[], .error e⟩

/-- A result that nothing had to be done for. -/
def ofExcept (r : Except TemplateError α) : Logged ω α := ⟨[], r⟩

/-- Note something done. -/
def note (w : ω) : Logged ω Unit := ⟨[w], .ok ()⟩

/-- The same with another error. -/
def mapError (f : TemplateError → TemplateError) (x : Logged ω α) : Logged ω α :=
  ⟨x.log, x.result.mapError f⟩

end Logged

end Templating
