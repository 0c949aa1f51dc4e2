import Mathlib.Data.List.Forall2
import Templating.Filter.Rendering
import Templating.Proofs.Linking.Steps

/-!
# Chains of filters

The chain of filters of a raw include does what the same filters do when they are nested around the
text of the file (`FilterSet.render_chain`). Both paths apply the filter named last first, so both
evaluate the chain from its end (`FilterSet.Evaluates`), and they go on alike filter by filter
(`Logged.Related`).
-/

namespace Templating

/-! ### Logged results side by side -/

/-- Both did what is related by `L`, and then both failed, with errors related by `E`, or gave
results related by `R`. -/
structure Logged.Related {ω α β : Type} (L : ω → ω → Prop)
    (E : TemplateError → TemplateError → Prop) (R : α → β → Prop) (x : Logged ω α)
    (y : Logged ω β) : Prop where
  log : List.Forall₂ L x.log y.log
  result : Outcomes E R x.result y.result

namespace Logged

variable {ω α β γ δ : Type} {L : ω → ω → Prop} {E : TemplateError → TemplateError → Prop}
  {R : α → β → Prop}

theorem bind_of_ok {log : List ω} {a : α} (f : α → Logged ω β) :
    (⟨log, .ok a⟩ : Logged ω α) >>= f = ⟨log ++ (f a).log, (f a).result⟩ := rfl

/-- What is done with a result in the end does not show in the log. -/
theorem bind_pure_eq (x : Logged ω α) (g : α → β) :
    (x >>= fun a ↦ pure (g a)) = ⟨x.log, x.result.map g⟩ := by
  obtain ⟨log, _ | a⟩ := x
  · rfl
  · exact congrArg (Logged.mk · (.ok (g a))) (List.append_nil log)

theorem related_pure {a : α} {b : β} (h : R a b) :
    Related L E R (pure a : Logged ω α) (pure b) :=
  ⟨.nil, .ok h⟩

theorem Related.bind {S : γ → δ → Prop} {x : Logged ω α} {y : Logged ω β} {f : α → Logged ω γ}
    {g : β → Logged ω δ} (hxy : Related L E R x y)
    (hfg : ∀ a b, R a b → Related L E S (f a) (g b)) :
    Related L E S (x >>= f) (y >>= g) := by
  obtain ⟨log, r⟩ := x
  obtain ⟨log', r'⟩ := y
  obtain ⟨hlog, hresult⟩ := hxy
  cases hresult with
  | error he => exact ⟨hlog, .error he⟩
  | ok hr => exact ⟨List.rel_append hlog (hfg _ _ hr).log, (hfg _ _ hr).result⟩

end Logged

/-- The same is wrong, perhaps at another place. -/
inductive TemplateError.SameCause : TemplateError → TemplateError → Prop where
  | structural (v : Violation) (p q : Position) : SameCause (.structural v p) (.structural v q)
  | filterFailed (name message : String) (p q : Position) :
    SameCause (.filterFailed name message p) (.filterFailed name message q)

/-- Applications of one filter to the same input, with the same options, perhaps in another
file. -/
structure FilterCall.Agrees (c c' : FilterCall) : Prop where
  name : c.name = c'.name
  input : c.input = c'.input
  attrs : c.options.attrs = c'.options.attrs

/-- Uses of one filter with the same options, perhaps at another place. -/
structure FilterUse.Agrees (u v : FilterUse) : Prop where
  name : u.name = v.name
  attrs : u.attrs = v.attrs

/-- Filters around a node, the first of the list outside, each with the position of its body. -/
def Node.nestFilters (us : List (FilterUse × Position)) (n : Node) : Node :=
  us.foldr (fun u inner ↦ .filter u.1 ⟨[inner], u.2⟩) n

namespace FilterSet

open Node TemplateError

variable {s : FilterSet} {u v : FilterUse} {us : List FilterUse}

/-! ### Options -/

/-- The value that an attribute gives to its option. -/
def valueOf (s : FilterSet) (a : Attr) : Except String Constant :=
  match a.value with
  | .flag => .ok (.bool true)
  | .expr source => s.evaluate source

/-- The value written for an option; the last one counts. -/
def written (s : FilterSet) (attrs : List Attr) (option : String) : Option Constant :=
  attrs.reverse.findSome? fun a ↦ if a.name = option then (s.valueOf a).toOption else none

/-- The options of a use of a filter: those it writes, and of the others the defaults of the name
it writes. -/
structure Configures (s : FilterSet) (u : FilterUse) (options : Options) : Prop where
  evaluated : ∀ a ∈ u.attrs, ∃ value, s.valueOf a = .ok value
  get? : ∀ option, options.get? option =
    (s.written u.attrs option).or ((s.defaults.get? u.name).bind (·.get? option))

theorem foldAttrs_cons (site : Position) (folded : Options) (a : Attr) (rest : List Attr) :
    s.foldAttrs site folded (a :: rest) =
      match s.valueOf a with
      | .ok value => s.foldAttrs site (folded.insert a.name value) rest
      | .error part => .error (.structural (.optionNotConstant part) site) := by
  rw [foldAttrs, valueOf]
  cases a.value with
  | flag => rfl
  | expr source => rfl

theorem foldAttrs_eq_ok {site : Position} {attrs : List Attr} {folded options : Options}
    (h : s.foldAttrs site folded attrs = .ok options) :
    (∀ a ∈ attrs, ∃ value, s.valueOf a = .ok value) ∧
      ∀ option, options.get? option = (s.written attrs option).or (folded.get? option) := by
  induction attrs generalizing folded with
  | nil =>
    cases h
    simp [written]
  | cons a rest ih =>
    rw [foldAttrs_cons] at h
    split at h
    · next value hvalue =>
      obtain ⟨hrest, hget⟩ := ih h
      refine ⟨List.forall_mem_cons.mpr ⟨⟨value, hvalue⟩, hrest⟩, fun option ↦ ?_⟩
      rw [hget, Table.get?_insert, written, written, List.reverse_cons, List.findSome?_append,
        Option.or_assoc]
      by_cases ha : a.name = option <;> simp [ha, hvalue, Except.toOption]
    · cases h

theorem get?_addDefaults (folded defaults : Options) (option : String) :
    (addDefaults folded defaults).get? option =
      (folded.get? option).or (defaults.get? option) := by
  obtain ⟨es⟩ := defaults
  change (es.foldl _ folded).get? option = (folded.get? option).or (Table.find? option es)
  induction es generalizing folded with
  | nil => simp [Table.find?]
  | cons e es ih =>
    rw [List.foldl_cons, ih, Table.find?]
    by_cases hin : folded.contains e.1
    · rw [if_pos hin]
      split
      · next he =>
        subst he
        obtain ⟨value, hvalue⟩ := Option.isSome_iff_exists.mp hin
        simp [hvalue]
      · rfl
    · rw [if_neg hin, Table.get?_insert]
      split
      · next he =>
        subst he
        simp [Option.not_isSome_iff_eq_none.mp hin]
      · rfl

theorem configures_of_options {file : Option Path} {o : FilterOptions}
    (h : s.options u file = .ok o) : s.Configures u o.attrs := by
  rw [options] at h
  split at h
  · cases h
  · next folded hfolded =>
    obtain ⟨hvalues, hget⟩ := foldAttrs_eq_ok hfolded
    refine ⟨hvalues, fun option ↦ ?_⟩
    split at h
    · next defaults hdefaults =>
      cases h
      simp [get?_addDefaults, hget, hdefaults]
    · next hdefaults =>
      cases h
      simp [hget, hdefaults]

/-! ### One filter -/

/-- What the name stands for takes no account of the file that its input comes from. -/
def IgnoresFile (s : FilterSet) (u : FilterUse) : Prop :=
  ∀ name f, s.lookup u.name u.position = .ok (name, f) → ∀ text attrs file file',
    f.render text ⟨attrs, file⟩ = f.render text ⟨attrs, file'⟩

/-- What the name stands for takes no bytes. -/
def TakesText (s : FilterSet) (u : FilterUse) : Prop :=
  ∀ name f, s.lookup u.name u.position = .ok (name, f) → f.acceptsBytes = false

theorem lookup_outcomes (name : String) (p q : Position) :
    Outcomes SameCause Eq (s.lookup name p) (s.lookup name q) := by
  have hresolve : Outcomes SameCause Eq (s.resolveName name p) (s.resolveName name q) := by
    unfold resolveName
    split
    · exact .ok rfl
    · split
      · exact .error (.structural ..)
      · exact .ok rfl
  unfold lookup
  generalize s.resolveName name p = x, s.resolveName name q = y at hresolve
  cases hresolve with
  | error h => exact .error h
  | ok h =>
    subst h
    dsimp only
    split
    · exact .ok rfl
    · exact .error (.structural ..)

theorem options_outcomes (h : u.Agrees v) (file file' : Option Path) :
    Outcomes SameCause (fun o o' ↦ o.attrs = o'.attrs) (s.options u file) (s.options v file') := by
  have hfold : ∀ (attrs : List Attr) (folded : Options) (p q : Position),
      Outcomes SameCause Eq (s.foldAttrs p folded attrs) (s.foldAttrs q folded attrs) := by
    intro attrs
    induction attrs with
    | nil => exact fun _ _ _ ↦ .ok rfl
    | cons a rest ih =>
      intro folded p q
      rw [foldAttrs_cons, foldAttrs_cons]
      split
      · exact ih _ p q
      · exact .error (.structural ..)
  unfold options
  rw [h.attrs, h.name]
  have hattrs := hfold v.attrs .empty u.position v.position
  generalize s.foldAttrs u.position .empty v.attrs = x, s.foldAttrs v.position .empty v.attrs = y
    at hattrs
  cases hattrs with
  | error he => exact .error he
  | ok ho =>
    subst ho
    dsimp only
    split <;> exact .ok rfl

theorem apply_related (hs : s.IgnoresFile u) (h : u.Agrees v) {o o' : FilterOptions}
    (ho : o.attrs = o'.attrs) (text : String) :
    Logged.Related FilterCall.Agrees SameCause Eq (s.apply u o text none)
      (s.apply v o' text none) := by
  unfold apply
  rw [h.name]
  have hlookup := lookup_outcomes (s := s) v.name u.position v.position
  cases hu : s.lookup v.name u.position with
  | error e =>
    rw [hu] at hlookup
    generalize s.lookup v.name v.position = y at hlookup
    cases hlookup with
    | error he => exact ⟨.nil, .error he⟩
  | ok r =>
    obtain ⟨name, f⟩ := r
    rw [hu] at hlookup
    generalize s.lookup v.name v.position = y at hlookup
    cases hlookup with
    | ok hr =>
      subst hr
      refine ⟨.cons ⟨rfl, rfl, ho⟩ .nil, ?_⟩
      have hrender : f.render text o = f.render text o' := by
        obtain ⟨attrs, file⟩ := o
        obtain ⟨_, file'⟩ := o'
        cases ho
        exact hs name f (by rw [h.name, hu]) text attrs file file'
      dsimp only
      rw [hrender]
      cases f.render text o' with
      | error complaint => exact .error (.filterFailed ..)
      | ok output => exact .ok rfl

theorem applyWith_related (hs : s.IgnoresFile u) (h : u.Agrees v) (file file' : Option Path)
    (text : String) :
    Logged.Related FilterCall.Agrees SameCause Eq (s.applyWith u file text none)
      (s.applyWith v file' text none) := by
  unfold applyWith
  have hoptions := options_outcomes (s := s) h file file'
  generalize s.options u file = x, s.options v file' = y at hoptions
  cases hoptions with
  | error he => exact ⟨.nil, .error he⟩
  | ok ho => exact apply_related hs h ho text

theorem applyWith_bytes (h : s.TakesText u) (file : Option Path) (text : String)
    (raw : Option (List UInt8)) : s.applyWith u file text raw = s.applyWith u file text none := by
  unfold applyWith apply
  split
  · rfl
  · split
    · rfl
    · next name f hlookup =>
      cases raw with
      | none => rfl
      | some bytes => simp [h name f hlookup]

/-! ### Chains -/

theorem applyChain_concat (file : Option Path) (us : List FilterUse) (u : FilterUse)
    (text : String) :
    s.applyChain file (us ++ [u]) text none =
      s.applyChain file us text none >>= fun output ↦ s.applyWith u file output none := by
  induction us generalizing text with
  | nil =>
    change s.applyWith u file text none >>= pure = _
    rw [bind_pure]
    rfl
  | cons w us ih =>
    change (s.applyWith w file text none >>= fun output ↦ s.applyChain file (us ++ [u]) output none)
      = (s.applyWith w file text none >>= fun output ↦ s.applyChain file us output none) >>= _
    simp only [ih, bind_assoc]

/-- The file's bytes make no difference to a chain whose last filter takes text. -/
theorem applyChain_bytes (h : ∀ u ∈ us.getLast?, s.TakesText u) (file : Option Path)
    (text : String) (raw : Option (List UInt8)) :
    s.applyChain file us.reverse text raw = s.applyChain file us.reverse text none := by
  rw [List.getLast?_eq_head?_reverse] at h
  cases hus : us.reverse with
  | nil => rfl
  | cons u rest =>
    rw [applyChain, applyChain, applyWith_bytes (h u (by simp [hus]))]

theorem render_includesRaw {f : Reference} {bytes : List UInt8} {text : String}
    (hraw : f.raw = some bytes) (htext : f.text = some text) (hne : us ≠ []) (d : Option Node)
    (p : Position) :
    s.render (.includesRaw f d us p) =
      s.applyChain f.target us.reverse text (some bytes) >>= fun output ↦
        pure (.text output p) := by
  have hempty : us.isEmpty = false := by simpa using hne
  simp [render, renderRaw, hempty, hraw, htext]

theorem render_nestFilters_cons (v : FilterUse × Position) (vs : List (FilterUse × Position))
    (text : String) (q : Position) :
    s.render (nestFilters (v :: vs) (.text text q)) = (do
      let n ← s.render (nestFilters vs (.text text q))
      let output ← s.applyWith v.1 v.1.position.file (directText [n]) none
      pure (.text output v.1.position)) := by
  cases vs with
  | nil => simp [nestFilters, render]
  | cons w vs =>
    change (s.renderAll [nestFilters (w :: vs) (.text text q)] >>= _) = _
    simp [renderAll]

/-- Filters around a text go on like the chain of the filters. -/
theorem exists_render_nestFilters {vs : List (FilterUse × Position)}
    (hs : ∀ u ∈ us, s.IgnoresFile u)
    (h : List.Forall₂ (fun u v ↦ u.Agrees v.1) us vs) (file : Option Path) (text : String)
    (q : Position) :
    ∃ y site, s.render (nestFilters vs (.text text q)) =
        y >>= (fun output ↦ pure (.text output site)) ∧
      Logged.Related FilterCall.Agrees SameCause Eq
        (s.applyChain file us.reverse text none) y := by
  induction h with
  | nil => exact ⟨pure text, q, by simp [nestFilters, render], Logged.related_pure rfl⟩
  | @cons u v us vs huv _ ih =>
    rw [List.forall_mem_cons] at hs
    obtain ⟨y, site, hy, hrelated⟩ := ih hs.2
    refine ⟨y >>= fun output ↦ s.applyWith v.1 v.1.position.file output none, v.1.position, ?_, ?_⟩
    · rw [render_nestFilters_cons, hy]
      simp [directText]
    · rw [List.reverse_cons, applyChain_concat]
      refine hrelated.bind ?_
      rintro output _ rfl
      exact applyWith_related hs.1 huv file _ output

/-- The evaluation of a chain of filters from its end, with the filters applied and the outcome. The
filter named last takes the text, and each other one takes what those behind it give. The first
failure ends the evaluation. -/
inductive Evaluates (s : FilterSet) (text : String) :
    List FilterUse → List FilterCall → Except TemplateError String → Prop where
  | nil : Evaluates s text [] [] (.ok text)
  | applied {u : FilterUse} {us : List FilterUse} {calls : List FilterCall} {input name : String}
    {f : Filter} {options : FilterOptions} (rest : Evaluates s text us calls (.ok input))
    (configures : s.Configures u options.attrs)
    (lookup : s.lookup u.name u.position = .ok (name, f)) :
    Evaluates s text (u :: us) (calls ++ [⟨name, .text input, options⟩])
      ((f.render input options).mapError (.filterFailed u.name · u.position))
  | misconfigured {u : FilterUse} {us : List FilterUse} {calls : List FilterCall} {input : String}
    {file : Option Path} {e : TemplateError} (rest : Evaluates s text us calls (.ok input))
    (options : s.options u file = .error e) : Evaluates s text (u :: us) calls (.error e)
  | unknown {u : FilterUse} {us : List FilterUse} {calls : List FilterCall} {input : String}
    {options : Options} {e : TemplateError} (rest : Evaluates s text us calls (.ok input))
    (configures : s.Configures u options) (lookup : s.lookup u.name u.position = .error e) :
    Evaluates s text (u :: us) calls (.error e)
  | failed {u : FilterUse} {us : List FilterUse} {calls : List FilterCall} {e : TemplateError}
    (rest : Evaluates s text us calls (.error e)) : Evaluates s text (u :: us) calls (.error e)

theorem evaluates_applyChain (file : Option Path) (us : List FilterUse) (text : String) :
    s.Evaluates text us (s.applyChain file us.reverse text none).log
      (s.applyChain file us.reverse text none).result := by
  induction us with
  | nil => exact .nil
  | cons u us ih =>
    rw [List.reverse_cons, applyChain_concat]
    generalize s.applyChain file us.reverse text none = x at ih ⊢
    obtain ⟨calls, _ | input⟩ := x
    · exact .failed ih
    · rw [Logged.bind_of_ok, applyWith]
      split
      · next e hoptions =>
        rw [Logged.fail, List.append_nil]
        exact .misconfigured ih hoptions
      · next options hoptions =>
        rw [apply]
        split
        · next e hlookup =>
          rw [Logged.fail, List.append_nil]
          exact .unknown ih (configures_of_options hoptions) hlookup
        · next name f hlookup =>
          exact .applied ih (configures_of_options hoptions) hlookup

/-- A raw include with a chain of filters and the same filters around the text of its file give
texts of the same value after the same applications, or fail for the same cause after the same
applications; both evaluate the chain from its end. -/
theorem render_chain {f : Reference} {bytes : List UInt8} {text : String}
    {vs : List (FilterUse × Position)} (hraw : f.raw = some bytes) (htext : f.text = some text)
    (hne : us ≠ []) (hagree : List.Forall₂ (fun u v ↦ u.Agrees v.1) us vs)
    (hfile : ∀ u ∈ us, s.IgnoresFile u) (hlast : ∀ u ∈ us.getLast?, s.TakesText u) (d : Option Node)
    (p q : Position) :
    ∃ calls calls' r r' site,
      s.render (.includesRaw f d us p) = ⟨calls, r.map (Node.text · p)⟩ ∧
        s.render (nestFilters vs (.text text q)) = ⟨calls', r'.map (Node.text · site)⟩ ∧
        s.Evaluates text us calls r ∧ List.Forall₂ FilterCall.Agrees calls calls' ∧
        Outcomes SameCause Eq r r' := by
  obtain ⟨y, site, hy, hrelated⟩ := exists_render_nestFilters hfile hagree f.target text q
  refine ⟨_, y.log, _, y.result, site, ?_, ?_, evaluates_applyChain f.target us text, hrelated.log,
    hrelated.result⟩
  · rw [render_includesRaw hraw htext hne, applyChain_bytes hlast, Logged.bind_pure_eq]
  · rw [hy, Logged.bind_pure_eq]

/-- Puts the text of its option on both sides. -/
def marking : Filter :=
  .ofText fun text options ↦
    match (options.attrs.get? "with").bind Constant.string? with
    | some m => .ok (m ++ text ++ m)
    | none => .error "no mark"

/-- A filter, and a name for it that comes with an option. -/
def markFilters : FilterSet :=
  ((empty.withFilter "mark" marking).withAlias "quote" "mark").withDefault "quote" "with"
    (.string "'")

/-- A use with an option that is written twice, around one with the option that its name comes
with. -/
def markUses (file : Option Path) : List FilterUse :=
  [⟨"mark", [⟨"with", .flag⟩, ⟨"with", .expr "\"*\""⟩], ⟨file, 1⟩⟩, ⟨"quote", [], ⟨file, 1⟩⟩]

/-- The uses again, in a text without a file name. -/
def markNesting : List (FilterUse × Position) := (markUses none).map fun u ↦ (u, u.position)

theorem lookup_markFilters {u : FilterUse} {name : String} {f : Filter} {file : Option Path}
    (hu : u ∈ markUses file) (h : markFilters.lookup u.name u.position = .ok (name, f)) :
    f = marking := by
  simp only [markUses, List.mem_cons, List.not_mem_nil, or_false] at hu
  rcases hu with rfl | rfl <;>
  · cases h
    rfl

/-- A loaded file of one letter. -/
def markFile : Reference := ⟨"n.txt", some ⟨"/page.tmpl"⟩, some ⟨"/n.txt"⟩, some [110], some "n"⟩

/-- Includes the file through the chain of the uses. -/
def markInclude : Node :=
  .includesRaw markFile none (markUses (some ⟨"/page.tmpl"⟩)) ⟨some ⟨"/page.tmpl"⟩, 1⟩

theorem render_chain_markFilters :
    ∃ calls site, markFilters.render (nestFilters markNesting (.text "n" ⟨none, 1⟩)) =
      ⟨calls, .ok (.text "*'n'*" site)⟩ ∧ calls.length = 2 := by
  have hagree : List.Forall₂ (fun u v ↦ FilterUse.Agrees u v.1) (markUses (some ⟨"/page.tmpl"⟩))
      markNesting := .cons ⟨rfl, rfl⟩ (.cons ⟨rfl, rfl⟩ .nil)
  obtain ⟨calls, calls', r, r', site, hraw, hnested, -, hcalls, hr⟩ :=
    render_chain (s := markFilters) (f := markFile) rfl rfl (by simp [markUses]) hagree
      (fun u hu name f h text attrs file file' ↦ by rw [lookup_markFilters hu h]; rfl)
      (fun u hu name f h ↦ by rw [lookup_markFilters (List.mem_of_getLast? hu) h]; rfl)
      none ⟨some ⟨"/page.tmpl"⟩, 1⟩ ⟨none, 1⟩
  have hvalue : (markFilters.render markInclude).result.toOption.map (directText [·]) =
      some "*'n'*" := by decide +kernel
  have hlength : (markFilters.render markInclude).log.length = 2 := by decide +kernel
  rw [markInclude, hraw] at hvalue hlength
  cases hr with
  | error => cases hvalue
  | @ok w _ h =>
    subst h
    have hw : w ++ "" = "*'n'*" := Option.some.inj hvalue
    rw [String.append_empty] at hw
    subst hw
    exact ⟨calls', site, hnested, hcalls.length_eq ▸ hlength⟩

end FilterSet

end Templating
