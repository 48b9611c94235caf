import Hermas.Base.Ledger
import Hermas.Compiler.Emit

/-!
# The discipline of bindings

The names of a workflow share one namespace: its parameter, what `let`, `all` and each
statements name, the items of an each and the bindings of match cases. A workflow is disciplined
when no name is introduced beside itself and what is introduced is consumed once. The lowering
keeps a ledger of just that, and so what it accepts is disciplined, but for one thing: a `let`
and a match case do not look among the results of `all`. `disciplined_iff_unshadowed` says that
this is all there is to it.
-/

namespace Hermas.Script

open Ledger (IsOpen uses)

/-! ## What a workflow introduces and consumes -/

inductive Resource where
  | input
  | binding (name : String)
  | result (name : String)
  | field (product field : String)
  deriving DecidableEq

/-- What else a name may stand for. -/
def rivals : Resource → List Resource
  | .binding name => [.result name]
  | .result name => [.binding name]
  | .input | .field .. => []

/-- A binding is consumed; the parameter's value is the workflow input. -/
def consume (parameter : Option String) (name : String) : List (Entry Resource) :=
  .used (.binding name) :: if parameter = some name then [.used .input] else []

def PipelineSource.entries (parameter : Option String) : PipelineSource → List (Entry Resource)
  | .workflowInput => [.used .input]
  | .binding name _ => consume parameter name
  | .productField product field _ => [.used (.field product field)]

/-- A binding that stands for the length of a pipeline. -/
def within (parameter : Option String) (name : String) (pipeline : Pipeline) :
    List (Entry Resource) :=
  .opened (.binding name) :: pipeline.source.entries parameter ++ [.closed (.binding name)]

/-- The branches of an `all` share the one value that the statement consumes. -/
def Statement.entries (parameter : Option String) : Statement → List (Entry Resource)
  | .let_ name _ pipeline => pipeline.source.entries parameter ++ [.opened (.binding name)]
  | .return_ _ pipeline | .withinReturn _ _ pipeline => pipeline.source.entries parameter
  | .all _ name _ source _ branches => consume parameter source ++
      .opened (.result name) :: branches.map fun branch => .opened (.field name branch.name)
  | .each _ name _ item _ source _ _ pipeline _ =>
      consume parameter source ++ within parameter item pipeline ++ [.opened (.binding name)]
  | .match_ _ binding _ cases => consume parameter binding ++
      cases.flatMap fun case_ => within parameter case_.binding case_.pipeline

def Workflow.parameterName (workflow : Workflow) : Option String :=
  workflow.parameter.map (·.name)

def Workflow.entries (workflow : Workflow) : List (Entry Resource) :=
  .opened .input :: (workflow.parameterName.toList.map fun name => .opened (.binding name)) ++
    workflow.statements.flatMap (Statement.entries workflow.parameterName)

/-- What is introduced in a workflow is consumed as it should be. -/
structure Disciplined (workflow : Workflow) : Prop where
  /-- A name that is introduced is not in scope already, whatever it stands for. -/
  fresh : ∀ before r after, workflow.entries = before ++ .opened r :: after →
    ¬ IsOpen before r ∧ ∀ other ∈ rivals r, ¬ IsOpen before other
  binding_once : ∀ before name after,
    workflow.entries = before ++ .opened (.binding name) :: after → uses (.binding name) after = 1
  field_once : ∀ before product field after,
    workflow.entries = before ++ .opened (.field product field) :: after →
      uses (.field product field) after ≤ 1
  result_used : ∀ product, .opened (.result product) ∈ workflow.entries →
    ∃ field, .used (.field product field) ∈ workflow.entries
  input_once : workflow.entries.count (.used .input) = 1

/-- The results of `all` that a statement names. -/
def Statement.results : Statement → List String
  | .all _ name .. => [name]
  | _ => []

/-- The names of a statement that are only looked for among the bindings. -/
def Statement.locals : Statement → List String
  | .let_ name .. => [name]
  | .match_ _ _ _ cases => cases.map (·.binding)
  | _ => []

/-- No `let` and no match case takes the name of the result of an `all` in front of it. -/
def Unshadowed (workflow : Workflow) : Prop :=
  workflow.statements.Pairwise fun earlier later =>
    ∀ name ∈ earlier.results, name ∉ later.locals

instance (workflow : Workflow) : Decidable (Unshadowed workflow) :=
  inferInstanceAs (Decidable (List.Pairwise _ _))

/-! ## The entries -/

section Entries

variable {parameter : Option String} {statement : Statement} {workflow : Workflow} {name : String}

theorem used_of_mem_consume {entry : Entry Resource} (h : entry ∈ consume parameter name) :
    ∃ r, entry = .used r := by
  rw [consume] at h
  rcases List.mem_cons.mp h with rfl | h
  · exact ⟨_, rfl⟩
  · split_ifs at h
    · exact ⟨_, List.mem_singleton.mp h⟩
    · cases h

theorem PipelineSource.used_of_mem {source : PipelineSource} {entry : Entry Resource}
    (h : entry ∈ source.entries parameter) : ∃ r, entry = .used r := by
  cases source with
  | workflowInput => exact ⟨_, List.mem_singleton.mp h⟩
  | binding name span => exact used_of_mem_consume h
  | productField product field span => exact ⟨_, List.mem_singleton.mp h⟩

theorem Statement.opened_result_iff :
    .opened (.result name) ∈ statement.entries parameter ↔ name ∈ statement.results := by
  have hsource : ∀ {source : PipelineSource},
      .opened (.result name) ∉ source.entries parameter := fun hmem => by
    obtain ⟨r, hr⟩ := PipelineSource.used_of_mem hmem
    cases hr
  have hconsume : ∀ {source : String},
      Entry.opened (.result name) ∉ consume parameter source := fun hmem => by
    obtain ⟨r, hr⟩ := used_of_mem_consume hmem
    cases hr
  cases statement <;>
    simp [Statement.entries, Statement.results, within, hsource, hconsume]

theorem Statement.closed_of_mem {r : Resource} (h : .closed r ∈ statement.entries parameter) :
    ∃ name, r = .binding name := by
  have hsource : ∀ {source : PipelineSource},
      .closed r ∉ source.entries parameter := fun hmem => by
    obtain ⟨r, hr⟩ := PipelineSource.used_of_mem hmem
    cases hr
  have hconsume : ∀ {source : String},
      Entry.closed r ∉ consume parameter source := fun hmem => by
    obtain ⟨r, hr⟩ := used_of_mem_consume hmem
    cases hr
  cases statement with
  | let_ | return_ | withinReturn | all => simp [Statement.entries, hsource, hconsume] at h
  | each span name nameSpan item =>
      simp only [Statement.entries, within, List.mem_append, List.mem_cons, hconsume, hsource,
        List.not_mem_nil, or_false, false_or, reduceCtorEq] at h
      exact ⟨item, Entry.closed.inj h⟩
  | match_ span binding bindingSpan cases =>
      simp only [Statement.entries, within, List.mem_append, List.mem_flatMap, List.mem_cons,
        hconsume, hsource, List.not_mem_nil, or_false, false_or, reduceCtorEq] at h
      obtain ⟨case_, -, heq⟩ := h
      exact ⟨case_.binding, Entry.closed.inj heq⟩

/-- Only the items of an each and the bindings of match cases go out of scope. -/
theorem Workflow.closed_of_mem {r : Resource} (h : .closed r ∈ workflow.entries) :
    ∃ name, r = .binding name := by
  rw [Workflow.entries, List.cons_append] at h
  rcases List.mem_append.mp ((List.mem_cons.mp h).resolve_left (fun heq => by cases heq)) with h | h
  · obtain ⟨name, -, heq⟩ := List.mem_map.mp h
    cases heq
  · obtain ⟨statement, -, hentry⟩ := List.mem_flatMap.mp h
    exact Statement.closed_of_mem hentry

theorem Statement.opened_of_locals (h : name ∈ statement.locals) :
    .opened (.binding name) ∈ statement.entries parameter := by
  cases statement with
  | let_ other nameSpan pipeline =>
      rw [List.mem_singleton.mp h]
      exact List.mem_append_right _ (List.mem_singleton_self _)
  | match_ span binding bindingSpan cases =>
      obtain ⟨case_, hcase, rfl⟩ := List.mem_map.mp h
      exact List.mem_append_right _ (List.mem_flatMap.mpr ⟨case_, hcase, List.mem_cons_self⟩)
  | return_ | withinReturn | all | each => cases h

theorem pairwise_of_splits {α : Type} {R : α → α → Prop} {l : List α}
    (h : ∀ before x after, l = before ++ x :: after → ∀ y ∈ before, R y x) : l.Pairwise R := by
  induction l using List.reverseRecOn with
  | nil => exact List.Pairwise.nil
  | append_singleton l x ih =>
      refine List.pairwise_append.mpr ⟨ih fun before y after heq => ?_,
        List.pairwise_singleton _ _, fun y hy z hz => ?_⟩
      · refine h before y (after ++ [x]) ?_
        rw [heq, List.append_assoc, List.cons_append]
      · rw [List.mem_singleton.mp hz]
        exact h l x [] rfl y hy

/-- **A disciplined workflow shadows nothing.** -/
theorem unshadowed_of_disciplined (h : Disciplined workflow) : Unshadowed workflow := by
  have hpairs : workflow.entries.Pairwise fun earlier later =>
      ∀ name, earlier = .opened (.result name) → later ≠ .opened (.binding name) := by
    refine pairwise_of_splits fun before later after heq earlier hearlier name hopened hlater => ?_
    subst hopened hlater
    -- a result stays in scope, and so a binding of its name is beside it
    obtain ⟨front, behind, rfl⟩ := List.append_of_mem hearlier
    refine (h.fresh _ _ _ heq).2 (.result name) List.mem_cons_self ⟨front, behind, rfl, fun hmem => ?_⟩
    have hin : .closed (.result name) ∈ workflow.entries := by
      rw [heq]
      exact List.mem_append_left _ (List.mem_append_right _ (List.mem_cons_of_mem _ hmem))
    obtain ⟨other, hother⟩ := Workflow.closed_of_mem hin
    cases hother
  have hstatements := (List.pairwise_append.mp hpairs).2.1
  rw [List.pairwise_flatMap] at hstatements
  refine hstatements.2.imp fun hpair name hresult hlocal => ?_
  exact hpair _ (Statement.opened_result_iff.mpr hresult) _ (Statement.opened_of_locals hlocal) name
    rfl rfl

end Entries

/-! ## What the lowering keeps -/

/-- What a context knows of the names and of the input. -/
structure Scope where
  bindings : List (String × Binding)
  products : List (String × ProductBinding)
  inputType : Option UInt16
  inputConsumed : Bool

def LoweringContext.scope (context : LoweringContext) : Scope :=
  ⟨context.bindings, context.products, context.inputType, context.inputConsumed⟩

/-- The ledger of a scope. -/
def Scope.view (scope : Scope) : Ledger.State Resource
  | .input => some scope.inputConsumed
  | .binding name => (scope.bindings.lookup name).map (·.consumed)
  | .result name => (scope.products.lookup name).map fun _ => false
  | .field product field =>
      ((scope.products.lookup product).bind (·.fields.lookup field)).map (·.consumed)

/-- The fields of a result, none of which stands for the input. -/
structure FieldsSound (fields : List (String × ProductField)) : Prop where
  sorted : Assoc.Sorted fields
  origin : ∀ field value, fields.lookup field = some value → value.origin ≠ .workflowInput

theorem FieldsSound.insert {fields : List (String × ProductField)} (h : FieldsSound fields)
    {value : ProductField} (hvalue : value.origin ≠ .workflowInput) (field : String) :
    FieldsSound (Assoc.insert field value fields) := by
  refine ⟨h.sorted.insert, fun other found hfound => ?_⟩
  rw [Assoc.lookup_insert h.sorted] at hfound
  split_ifs at hfound
  · cases hfound
    exact hvalue
  · exact h.origin other found hfound

/-- The workflow input is behind the parameter, or it has been consumed. -/
structure Scope.Sound (parameter : Option String) (scope : Scope) : Prop where
  bindings : Assoc.Sorted scope.bindings
  products : Assoc.Sorted scope.products
  fields : ∀ name product, scope.products.lookup name = some product → FieldsSound product.fields
  bound : ∀ name, parameter = some name → ∃ binding, scope.bindings.lookup name = some binding ∧
    binding.origin = .workflowInput ∧ (binding.consumed = true → scope.inputConsumed = true)
  origin : ∀ name binding, scope.bindings.lookup name = some binding →
    binding.origin = .workflowInput → parameter = some name ∨ scope.inputConsumed = true
  inferred : scope.inputType.isSome = true → parameter.isSome = true ∨ scope.inputConsumed = true

/-- From one scope to another the ledger takes the entries. -/
structure Lowers (parameter : Option String) (entries : List (Entry Resource))
    (scope scope' : Scope) : Prop where
  run : Ledger.run rivals scope.view entries = some scope'.view
  sound : scope'.Sound parameter

theorem Lowers.trans {parameter : Option String} {entries more : List (Entry Resource)}
    {scope between scope' : Scope} (h : Lowers parameter entries scope between)
    (h' : Lowers parameter more between scope') : Lowers parameter (entries ++ more) scope scope' := by
  refine ⟨?_, h'.sound⟩
  rw [Ledger.run_append, h.run]
  exact h'.run

section Views

variable {scope : Scope} {name : String}

theorem Scope.view_insert_binding (h : Assoc.Sorted scope.bindings) (binding : Binding) :
    { scope with bindings := Assoc.insert name binding scope.bindings }.view =
      Function.update scope.view (.binding name) (some binding.consumed) := by
  funext r
  by_cases hr : r = .binding name
  · subst hr
    rw [Function.update_self, Scope.view, Assoc.lookup_insert h, if_pos rfl]
    rfl
  · rw [Function.update_of_ne hr]
    cases r with
    | binding other =>
        rw [Scope.view, Assoc.lookup_insert h, if_neg (fun heq => hr (congrArg _ heq))]
        rfl
    | input | result | field => rfl

theorem Scope.view_erase_binding :
    { scope with bindings := Assoc.erase name scope.bindings }.view =
      Function.update scope.view (.binding name) none := by
  funext r
  by_cases hr : r = .binding name
  · subst hr
    rw [Function.update_self, Scope.view, Assoc.lookup_erase, if_pos rfl]
    rfl
  · rw [Function.update_of_ne hr]
    cases r with
    | binding other =>
        rw [Scope.view, Assoc.lookup_erase, if_neg (fun heq => hr (congrArg _ heq))]
        rfl
    | input | result | field => rfl

theorem Scope.view_inputConsumed :
    { scope with inputConsumed := true }.view = Function.update scope.view .input (some true) := by
  funext r
  by_cases hr : r = .input
  · subst hr
    rw [Function.update_self]
    rfl
  · rw [Function.update_of_ne hr]
    cases r with
    | input => exact absurd rfl hr
    | binding | result | field => rfl

/-- A result is opened without fields. -/
theorem Scope.view_insert_product (h : Assoc.Sorted scope.products)
    (hnone : scope.products.lookup name = none) (span : Schema.Span) :
    { scope with products := Assoc.insert name ⟨[], span⟩ scope.products }.view =
      Function.update scope.view (.result name) (some false) := by
  funext r
  by_cases hr : r = .result name
  · subst hr
    rw [Function.update_self, Scope.view, Assoc.lookup_insert h, if_pos rfl]
    rfl
  · rw [Function.update_of_ne hr]
    cases r with
    | result other =>
        rw [Scope.view, Assoc.lookup_insert h, if_neg (fun heq => hr (congrArg _ heq))]
        rfl
    | field product field =>
        rw [Scope.view, Scope.view, Assoc.lookup_insert h]
        by_cases hproduct : product = name
        · rw [if_pos hproduct, hproduct, hnone]
          rfl
        · rw [if_neg hproduct]
    | input | binding => rfl

/-- A field of a result changes nothing else. -/
theorem Scope.view_insert_field {product : ProductBinding} {products : List (String × ProductBinding)}
    (hsorted : Assoc.Sorted product.fields)
    (hproduct : ∀ other, scope.products.lookup other =
      if other = name then some product else products.lookup other)
    {products' : List (String × ProductBinding)} {field : String} {value : ProductField}
    (hproducts' : ∀ other, products'.lookup other =
      if other = name then some { product with fields := Assoc.insert field value product.fields }
      else products.lookup other) :
    { scope with products := products' }.view =
      Function.update scope.view (.field name field) (some value.consumed) := by
  funext r
  by_cases hr : r = .field name field
  · subst hr
    rw [Function.update_self, Scope.view, hproducts', if_pos rfl, Option.bind_some,
      Assoc.lookup_insert hsorted, if_pos rfl]
    rfl
  · rw [Function.update_of_ne hr]
    cases r with
    | result other =>
        rw [Scope.view, Scope.view, hproducts', hproduct]
        split_ifs <;> rfl
    | field other otherField =>
        rw [Scope.view, Scope.view, hproducts', hproduct]
        by_cases hother : other = name
        · have hfield : otherField ≠ field := fun heq => hr (by rw [hother, heq])
          rw [if_pos hother, if_pos hother, Option.bind_some, Option.bind_some,
            Assoc.lookup_insert hsorted, if_neg hfield]
        · rw [if_neg hother, if_neg hother]
    | input | binding => rfl

end Views

section Taking

variable {parameter : Option String} {scope : Scope} {context context' : LoweringContext}
  {name : String} {span : Schema.Span} {taken inputTaken : String} {origin : ValueOrigin}
  {typeId : UInt16}

/-- The scope in which a binding has been taken. -/
def Scope.take (scope : Scope) (name : String) (binding : Binding) : Scope :=
  { scope with
    bindings := Assoc.insert name { binding with consumed := true } scope.bindings
    inputConsumed := scope.inputConsumed || decide (binding.origin = .workflowInput) }

theorem takeBinding_ok
    (h : takeBinding taken inputTaken name span context = .ok ((origin, typeId), context')) :
    ∃ binding, context.scope.bindings.lookup name = some binding ∧ binding.consumed = false ∧
      binding.origin = origin ∧ (origin = .workflowInput → context.scope.inputConsumed = false) ∧
      context'.scope = context.scope.take name binding := by
  simp only [takeBinding, bind_ok, demand_ok, require_ok] at h
  obtain ⟨binding, hlookup, -, hconsumed, h⟩ := h
  refine ⟨binding, hlookup, hconsumed, ?_⟩
  split_ifs at h with horigin
  · simp only [bind_ok, require_ok] at h
    obtain ⟨-, hinput, h⟩ := h
    cases h
    refine ⟨rfl, fun _ => hinput, ?_⟩
    rw [Scope.take, decide_eq_true horigin, Bool.or_true]
    rfl
  · cases h
    refine ⟨rfl, fun heq => absurd heq horigin, ?_⟩
    rw [Scope.take, decide_eq_false horigin, Bool.or_false]
    rfl

theorem Scope.Sound.take (hsound : scope.Sound parameter) {binding : Binding}
    (hlookup : scope.bindings.lookup name = some binding) :
    (scope.take name binding).Sound parameter := by
  have hmono : scope.inputConsumed = true → (scope.take name binding).inputConsumed = true :=
    fun hinput => by rw [Scope.take, hinput, Bool.true_or]
  refine ⟨hsound.bindings.insert, hsound.products, hsound.fields, fun other hother => ?_,
    fun other found hfound horigin => ?_, fun hsome => (hsound.inferred hsome).imp_right hmono⟩
  · obtain ⟨found, hfound, horigin, hused⟩ := hsound.bound other hother
    rw [Scope.take, Assoc.lookup_insert hsound.bindings]
    by_cases heq : other = name
    · subst heq
      cases hlookup.symm.trans hfound
      refine ⟨_, if_pos rfl, horigin, fun _ => ?_⟩
      rw [decide_eq_true horigin, Bool.or_true]
    · exact ⟨found, by rw [if_neg heq, hfound], horigin, fun hconsumed => hmono (hused hconsumed)⟩
  · rw [Scope.take, Assoc.lookup_insert hsound.bindings] at hfound
    split_ifs at hfound with heq
    · cases hfound
      exact .inr (by rw [Scope.take, decide_eq_true horigin, Bool.or_true])
    · exact (hsound.origin other found hfound horigin).imp_right hmono

/-- The binding that is taken has been used, and with the parameter the input. -/
theorem Scope.take_lowers (hsound : scope.Sound parameter) {binding : Binding}
    (hlookup : scope.bindings.lookup name = some binding) (hconsumed : binding.consumed = false)
    (hfree : binding.origin = .workflowInput → scope.inputConsumed = false) :
    Lowers parameter (consume parameter name) scope (scope.take name binding) := by
  have hview : scope.view (.binding name) = some false := by rw [Scope.view, hlookup, ← hconsumed]; rfl
  refine ⟨?_, hsound.take hlookup⟩
  rw [consume, Ledger.run_cons, Ledger.step_used hview, Option.bind_some,
    ← Scope.view_insert_binding hsound.bindings { binding with consumed := true }, Scope.take]
  split_ifs with hparameter
  · obtain ⟨_, hparam, horigin, -⟩ := hsound.bound name hparameter
    cases hlookup.symm.trans hparam
    rw [Ledger.run_cons, Ledger.step_used (r := Resource.input) (congrArg some (hfree horigin)), Option.bind_some,
      ← Scope.view_inputConsumed, Ledger.run_nil, decide_eq_true horigin, Bool.or_true]
  · have horigin : binding.origin ≠ .workflowInput := fun horigin => by
      have hused := (hsound.origin name binding hlookup horigin).resolve_left hparameter
      rw [hfree horigin] at hused
      cases hused
    rw [Ledger.run_nil, decide_eq_false horigin, Bool.or_false]

theorem takeBinding_lowers (hsound : context.scope.Sound parameter)
    (h : takeBinding taken inputTaken name span context = .ok ((origin, typeId), context')) :
    Lowers parameter (consume parameter name) context.scope context'.scope ∧
      (origin = .workflowInput → context'.scope.inputConsumed = true) := by
  obtain ⟨binding, hlookup, hconsumed, rfl, hfree, hscope⟩ := takeBinding_ok h
  rw [hscope]
  refine ⟨Scope.take_lowers hsound hlookup hconsumed hfree, fun horigin => ?_⟩
  rw [Scope.take, decide_eq_true horigin, Bool.or_true]

/-- The scope in which a field has been taken. -/
def Scope.takeField (scope : Scope) (name : String) (product : ProductBinding) (field : String)
    (value : ProductField) : Scope :=
  let fields := Assoc.insert field { value with consumed := true } product.fields
  { scope with products := Assoc.insert name { product with fields } scope.products }

/-- The field that is taken has been used. -/
theorem Scope.takeField_lowers (hsound : scope.Sound parameter) {product : ProductBinding}
    {field : String} {value : ProductField} (hproduct : scope.products.lookup name = some product)
    (hvalue : product.fields.lookup field = some value) (hconsumed : value.consumed = false) :
    Lowers parameter [.used (.field name field)] scope (scope.takeField name product field value) := by
  have hfields := hsound.fields name product hproduct
  constructor
  · have hview : scope.view (.field name field) = some false := by
      rw [Scope.view, hproduct, Option.bind_some, hvalue, ← hconsumed]
      rfl
    rw [Ledger.run_cons, Ledger.step_used hview, Option.bind_some, Ledger.run_nil, Scope.takeField,
      Scope.view_insert_field hfields.sorted (fun other => ?_)
        (fun other => Assoc.lookup_insert hsound.products)]
    split_ifs with hother
    · rw [hother, hproduct]
    · rfl
  · refine ⟨hsound.bindings, hsound.products.insert, fun other result hresult => ?_, hsound.bound,
      hsound.origin, hsound.inferred⟩
    rw [Scope.takeField, Assoc.lookup_insert hsound.products] at hresult
    split_ifs at hresult
    · cases hresult
      have horigin : { value with consumed := true : ProductField }.origin ≠ .workflowInput :=
        hfields.origin field value hvalue
      exact hfields.insert horigin field
    · exact hsound.fields other result hresult

theorem takeField_lowers {product field : String} (hsound : context.scope.Sound parameter)
    (h : takeField product field span context = .ok ((origin, typeId), context')) :
    Lowers parameter [.used (.field product field)] context.scope context'.scope ∧
      origin ≠ .workflowInput := by
  simp only [takeField, bind_ok, demand_ok, require_ok] at h
  obtain ⟨found, hfound, value, hvalue, -, hconsumed, h⟩ := h
  cases h
  exact ⟨Scope.takeField_lowers hsound hfound hvalue hconsumed,
    (hsound.fields product found hfound).origin field value hvalue⟩

end Taking

/-! ## Pipelines -/

section Pipelines

variable {parameter : Option String} {scope : Scope} {context between context' : LoweringContext}
  {pipeline : Pipeline} {origin origin' : ValueOrigin} {valueType : Option UInt16} {typeId : UInt16}

theorem lowerInvocation_scope {invocation : Invocation}
    (h : lowerInvocation invocation origin valueType context = .ok ((origin', typeId), context')) :
    context'.scope = context.scope ∧ origin' ≠ .workflowInput := by
  simp only [lowerInvocation, bind_ok, demand_ok, require_ok] at h
  obtain ⟨-, -, actionId, -, action, -, presentation, -, -, -, h⟩ := h
  cases h
  exact ⟨rfl, fun heq => by cases heq⟩

/-- Actions leave every name as it is. -/
theorem lowerPipelineTail_scope {invocations : List Invocation}
    (h : lowerPipelineTail invocations origin valueType context = .ok ((origin', typeId), context')) :
    context'.scope = context.scope ∧ (origin' = .workflowInput → origin = .workflowInput) := by
  induction invocations generalizing origin valueType context with
  | nil =>
      simp only [lowerPipelineTail, bind_ok, demand_ok] at h
      obtain ⟨_, -, h⟩ := h
      cases h
      exact ⟨rfl, id⟩
  | cons invocation invocations ih =>
      rw [lowerPipelineTail, bind_ok] at h
      obtain ⟨⟨⟨origin₁, typeId₁⟩, context₁⟩, hfirst, hrest⟩ := h
      obtain ⟨hscope₁, horigin₁⟩ := lowerInvocation_scope hfirst
      obtain ⟨hscope, horigin⟩ := ih hrest
      exact ⟨hscope.trans hscope₁, fun heq => absurd (horigin heq) horigin₁⟩

/-- The input is consumed, whatever type has been inferred for it. -/
theorem Scope.takeInput_lowers (hsound : scope.Sound parameter) (hfree : scope.inputConsumed = false)
    (inputType : Option UInt16) :
    Lowers parameter [.used .input] scope { scope with inputType, inputConsumed := true } := by
  constructor
  · rw [Ledger.run_cons, Ledger.step_used (r := Resource.input) (congrArg some hfree),
      Option.bind_some, Ledger.run_nil, ← Scope.view_inputConsumed]
    rfl
  · refine ⟨hsound.bindings, hsound.products, hsound.fields, fun name hname => ?_,
      fun _ _ _ _ => .inr rfl, fun _ => .inr rfl⟩
    obtain ⟨binding, hlookup, horigin, -⟩ := hsound.bound name hname
    exact ⟨binding, hlookup, horigin, fun _ => rfl⟩

theorem inferInput_ok (h : inferInput pipeline context = .ok between) :
    (∃ inputType, between.scope = { context.scope with inputType }) ∧
      (pipeline.source ≠ .workflowInput → between = context) := by
  unfold inferInput at h
  split_ifs at h with hinfer
  · refine ⟨?_, fun hsource => absurd hinfer.2 hsource⟩
    cases hinvocations : pipeline.invocations with
    | nil =>
        rw [hinvocations] at h
        cases h
    | cons first rest =>
        rw [hinvocations] at h
        simp only [bind_ok, demand_ok] at h
        obtain ⟨action, -, h⟩ := h
        cases h
        exact ⟨some action.input, rfl⟩
  · cases h
    exact ⟨⟨context.inputType, rfl⟩, fun _ => rfl⟩

/-- A pipeline uses its source. -/
theorem takeSource_lowers (hsound : context.scope.Sound parameter)
    (hinfer : inferInput pipeline context = .ok between)
    (h : takeSource pipeline between = .ok ((origin, valueType), context')) :
    Lowers parameter (pipeline.source.entries parameter) context.scope context'.scope ∧
      (origin = .workflowInput → context'.scope.inputConsumed = true) := by
  obtain ⟨⟨inputType, hbetween⟩, hkeep⟩ := inferInput_ok hinfer
  unfold takeSource at h
  cases hsource : pipeline.source with
  | workflowInput =>
      simp only [hsource] at h
      split_ifs at h with hused
      · cases hinvocations : pipeline.invocations with
        | nil => simp [hinvocations] at h
        | cons first rest => simp [hinvocations] at h
      · cases h
        have hfree : context.scope.inputConsumed = false := by
          rw [← congrArg Scope.inputConsumed hbetween]
          exact Bool.eq_false_iff.mpr hused
        have hscope : { between with inputConsumed := true }.scope =
            { context.scope with inputType, inputConsumed := true } :=
          congrArg (fun scope : Scope => { scope with inputConsumed := true }) hbetween
        rw [hscope]
        exact ⟨Scope.takeInput_lowers hsound hfree inputType, fun _ => rfl⟩
  | binding name span =>
      rw [hkeep (fun heq => by rw [hsource] at heq; cases heq)] at h
      simp only [hsource, bind_ok] at h
      obtain ⟨⟨⟨origin₁, typeId₁⟩, context₁⟩, htake, h⟩ := h
      cases h
      exact takeBinding_lowers hsound htake
  | productField product field span =>
      rw [hkeep (fun heq => by rw [hsource] at heq; cases heq)] at h
      simp only [hsource, bind_ok] at h
      obtain ⟨⟨⟨origin₁, typeId₁⟩, context₁⟩, htake, h⟩ := h
      cases h
      obtain ⟨hlowers, horigin⟩ := takeField_lowers hsound htake
      exact ⟨hlowers, fun heq => absurd heq horigin⟩

theorem lowerPipeline_lowers (hsound : context.scope.Sound parameter)
    (hinfer : inferInput pipeline context = .ok between)
    (h : lowerPipeline pipeline between = .ok ((origin, typeId), context')) :
    Lowers parameter (pipeline.source.entries parameter) context.scope context'.scope ∧
      (origin = .workflowInput → context'.scope.inputConsumed = true) := by
  rw [lowerPipeline, bind_ok] at h
  obtain ⟨⟨⟨origin₁, valueType⟩, context₁⟩, htake, htail⟩ := h
  obtain ⟨hlowers, hinput⟩ := takeSource_lowers hsound hinfer htake
  obtain ⟨hscope, horigin⟩ := lowerPipelineTail_scope htail
  rw [hscope]
  exact ⟨hlowers, fun heq => hinput (horigin heq)⟩

end Pipelines

/-! ## Names that come into scope -/

section Opening

variable {parameter : Option String} {scope : Scope} {name : String} {pipeline : Pipeline}

theorem Scope.lookup_of_view (h : scope.view (.binding name) = none) :
    scope.bindings.lookup name = none := Option.map_eq_none_iff.mp h

theorem Scope.Sound.ne_parameter (hsound : scope.Sound parameter)
    (h : scope.view (.binding name) = none) : parameter ≠ some name := fun heq => by
  obtain ⟨binding, hlookup, -⟩ := hsound.bound name heq
  rw [Scope.lookup_of_view h] at hlookup
  cases hlookup

theorem Scope.Sound.insert (hsound : scope.Sound parameter)
    (hnone : scope.view (.binding name) = none) (binding : Binding)
    (horigin : binding.origin = .workflowInput → scope.inputConsumed = true) :
    { scope with bindings := Assoc.insert name binding scope.bindings }.Sound parameter := by
  refine ⟨hsound.bindings.insert, hsound.products, hsound.fields, fun other hother => ?_,
    fun other found hfound hinput => ?_, hsound.inferred⟩
  · have hne : other ≠ name := fun heq => hsound.ne_parameter hnone (heq ▸ hother)
    obtain ⟨found, hfound, hrest⟩ := hsound.bound other hother
    exact ⟨found, by rw [Assoc.lookup_insert hsound.bindings, if_neg hne, hfound], hrest⟩
  · rw [Assoc.lookup_insert hsound.bindings] at hfound
    split_ifs at hfound
    · cases hfound
      exact .inr (horigin hinput)
    · exact hsound.origin other found hfound hinput

theorem Scope.Sound.erase (hsound : scope.Sound parameter) (hne : parameter ≠ some name) :
    { scope with bindings := Assoc.erase name scope.bindings }.Sound parameter := by
  refine ⟨hsound.bindings.erase, hsound.products, hsound.fields, fun other hother => ?_,
    fun other found hfound hinput => ?_, hsound.inferred⟩
  · have hother' : other ≠ name := fun heq => hne (heq ▸ hother)
    obtain ⟨found, hfound, hrest⟩ := hsound.bound other hother
    exact ⟨found, by rw [Assoc.lookup_erase, if_neg hother', hfound], hrest⟩
  · rw [Assoc.lookup_erase] at hfound
    split_ifs at hfound
    exact hsound.origin other found hfound hinput

/-- A binding that stands beside no other name comes into scope. -/
theorem Scope.open_lowers (hsound : scope.Sound parameter)
    (hnone : scope.view (.binding name) = none) (hresult : scope.view (.result name) = none)
    (binding : Binding) (hconsumed : binding.consumed = false)
    (horigin : binding.origin = .workflowInput → scope.inputConsumed = true) :
    Lowers parameter [.opened (.binding name)] scope
      { scope with bindings := Assoc.insert name binding scope.bindings } := by
  refine ⟨?_, hsound.insert hnone binding horigin⟩
  have hrivals : ∀ other ∈ rivals (.binding name), scope.view other = none := fun other hother => by
    rw [List.mem_singleton.mp hother, hresult]
  rw [Ledger.run_cons, Ledger.step_opened hnone hrivals, Option.bind_some, Ledger.run_nil,
    Scope.view_insert_binding hsound.bindings, hconsumed]

theorem Pipeline.source_of_startsFrom (h : pipeline.startsFrom name = true) :
    ∃ span, pipeline.source = .binding name span := by
  unfold Pipeline.startsFrom at h
  split at h
  · exact ⟨_, by rw [← beq_iff_eq.mp h]; assumption⟩
  · cases h

theorem consume_of_ne (h : parameter ≠ some name) :
    consume parameter name = [.used (.binding name)] := by rw [consume, if_neg h]

/-- A binding for the length of a pipeline that starts from it leaves the ledger as it was. -/
theorem Scope.run_within (hsound : scope.Sound parameter)
    (hnone : scope.view (.binding name) = none) (hresult : scope.view (.result name) = none)
    (hstarts : pipeline.startsFrom name = true) :
    Ledger.run rivals scope.view (within parameter name pipeline) = some scope.view := by
  obtain ⟨span, hsource⟩ := Pipeline.source_of_startsFrom hstarts
  have hrivals : ∀ other ∈ rivals (.binding name), scope.view other = none := fun other hother => by
    rw [List.mem_singleton.mp hother, hresult]
  rw [within, hsource, PipelineSource.entries, consume_of_ne (hsound.ne_parameter hnone),
    List.cons_append, List.singleton_append, Ledger.run_cons, Ledger.step_opened hnone hrivals,
    Option.bind_some, Ledger.run_cons, Ledger.step_used (Function.update_self ..), Option.bind_some,
    Ledger.run_cons, Ledger.step_closed (Function.update_self ..), Option.bind_some, Ledger.run_nil,
    Function.update_idem, Function.update_idem, ← hnone, Function.update_eq_self]

end Opening

/-! ## Statements -/

section Statements

variable {parameter : Option String} {scope : Scope} {context context' : LoweringContext}
  {name : String} {span nameSpan : Schema.Span} {pipeline : Pipeline} {successType : UInt16}

theorem requireUnbound_ok {α : Type} {table : List (String × α)} {message : String} {u : Unit}
    (h : requireUnbound context table name span message = .ok u) : table.lookup name = none := by
  rw [requireUnbound, require_ok] at h
  exact Option.not_isSome_iff_eq_none.mp (Bool.eq_false_iff.mp h)

theorem PipelineSource.not_opened {source : PipelineSource} {r : Resource} :
    .opened r ∉ source.entries parameter := fun hmem => by
  obtain ⟨r, hr⟩ := PipelineSource.used_of_mem hmem
  cases hr

theorem not_opened_consume {r : Resource} : .opened r ∉ consume parameter name := fun hmem => by
  obtain ⟨r, hr⟩ := used_of_mem_consume hmem
  cases hr

theorem lowerLet_lowers (hsound : context.scope.Sound parameter)
    (hresult : context.scope.view (.result name) = none)
    (h : lowerLet name nameSpan pipeline context = .ok context') :
    Lowers parameter (pipeline.source.entries parameter ++ [.opened (.binding name)])
      context.scope context'.scope := by
  simp only [lowerLet, bind_ok] at h
  obtain ⟨_, hunbound, between, hinfer, ⟨⟨origin, typeId⟩, context₁⟩, hlower, h⟩ := h
  cases h
  obtain ⟨hlowers, hinput⟩ := lowerPipeline_lowers hsound hinfer hlower
  have hnone : context.scope.view (.binding name) = none :=
    congrArg (Option.map _) (requireUnbound_ok hunbound)
  exact hlowers.trans (Scope.open_lowers hlowers.sound
    (Ledger.run_none hlowers.run hnone PipelineSource.not_opened)
    (Ledger.run_none hlowers.run hresult PipelineSource.not_opened) _ rfl hinput)

theorem lowerReturn_lowers (hsound : context.scope.Sound parameter)
    (h : lowerReturn successType span pipeline context = .ok context') :
    Lowers parameter (pipeline.source.entries parameter) context.scope context'.scope := by
  simp only [lowerReturn, bind_ok] at h
  obtain ⟨between, hinfer, ⟨⟨origin, typeId⟩, context₁⟩, hlower, -, -, h⟩ := h
  cases h
  exact (lowerPipeline_lowers hsound hinfer hlower).1

theorem lowerWithinReturn_lowers {durationMs : UInt64} (hsound : context.scope.Sound parameter)
    (h : lowerWithinReturn successType durationMs span pipeline context = .ok context') :
    Lowers parameter (pipeline.source.entries parameter) context.scope context'.scope := by
  simp only [lowerWithinReturn, bind_ok] at h
  obtain ⟨context₁, hreturn, h⟩ := h
  cases h
  show Lowers parameter _ context.scope context₁.scope
  exact lowerReturn_lowers hsound hreturn

/-! ### All -/

/-- The scope with a result of these fields. -/
def Scope.withResult (scope : Scope) (name : String) (span : Schema.Span)
    (fields : List (String × ProductField)) : Scope :=
  { scope with products := Assoc.insert name { fields, span } scope.products }

theorem Scope.Sound.withResult (hsound : scope.Sound parameter)
    {fields : List (String × ProductField)} (hfields : FieldsSound fields) :
    (scope.withResult name span fields).Sound parameter := by
  refine ⟨hsound.bindings, hsound.products.insert, fun other product hproduct => ?_, hsound.bound,
    hsound.origin, hsound.inferred⟩
  rw [Scope.withResult, Assoc.lookup_insert hsound.products] at hproduct
  split_ifs at hproduct
  · cases hproduct
    exact hfields
  · exact hsound.fields other product hproduct

theorem lowerBranch_ok {source : String} {allIndex : Nat} {sharedType : UInt16}
    {branches branches' : Branches} {branch : AllBranch}
    (h : lowerBranch source allIndex sharedType (branches, context) branch =
      .ok (branches', context')) :
    branches.fields.lookup branch.name = none ∧ context'.scope = context.scope ∧
      ∃ value : ProductField, value.consumed = false ∧ value.origin ≠ .workflowInput ∧
        branches'.fields = Assoc.insert branch.name value branches.fields := by
  simp only [lowerBranch, bind_ok, require_ok] at h
  obtain ⟨-, -, -, hlookup, ⟨⟨origin, typeId⟩, context₁⟩, hlower, h⟩ := h
  cases h
  refine ⟨Option.not_isSome_iff_eq_none.mp (Bool.eq_false_iff.mp hlookup),
    (lowerPipelineTail_scope hlower).1, _, rfl, ?_, rfl⟩
  exact fun heq => by cases heq

/-- The branches of an `all` bring its fields into scope, one by one. -/
theorem lowerBranches_run (name : String) (span : Schema.Span) {source : String} {allIndex : Nat}
    {sharedType : UInt16} (hsorted : Assoc.Sorted scope.products) {branches : List AllBranch} :
    ∀ {lowered lowered' : Branches} {context : LoweringContext}, FieldsSound lowered.fields →
      branches.foldlM (lowerBranch source allIndex sharedType) (lowered, context) =
        .ok (lowered', context') →
      context'.scope = context.scope ∧ FieldsSound lowered'.fields ∧
        Ledger.run rivals (scope.withResult name span lowered.fields).view
            (branches.map fun branch => .opened (.field name branch.name)) =
          some (scope.withResult name span lowered'.fields).view := by
  induction branches with
  | nil =>
      intro lowered lowered' context hfields h
      rw [List.foldlM_nil, pure_ok] at h
      cases h
      exact ⟨rfl, hfields, rfl⟩
  | cons branch branches ih =>
      intro lowered lowered' context hfields h
      rw [List.foldlM_cons, bind_ok] at h
      obtain ⟨⟨lowered₁, context₁⟩, hbranch, hrest⟩ := h
      obtain ⟨hlookup, hscope₁, value, hconsumed, horigin, hinsert⟩ := lowerBranch_ok hbranch
      have hfields₁ : FieldsSound lowered₁.fields := hinsert ▸ hfields.insert horigin branch.name
      obtain ⟨hscope, hfields', hrun⟩ := ih hfields₁ hrest
      refine ⟨hscope.trans hscope₁, hfields', ?_⟩
      have hresult : ∀ fields other, (scope.withResult name span fields).products.lookup other =
          if other = name then some { fields, span } else scope.products.lookup other :=
        fun fields other => Assoc.lookup_insert hsorted
      have hnone : (scope.withResult name span lowered.fields).view (.field name branch.name) = none := by
        rw [Scope.view, hresult, if_pos rfl, Option.bind_some, hlookup]
        rfl
      have hview : (scope.withResult name span lowered₁.fields).view =
          Function.update (scope.withResult name span lowered.fields).view
            (.field name branch.name) (some false) := by
        rw [← hconsumed, hinsert]
        exact Scope.view_insert_field hfields.sorted (hresult lowered.fields) (hresult _)
      rw [List.map_cons, Ledger.run_cons, Ledger.step_opened hnone (List.forall_mem_nil _),
        Option.bind_some, ← hview, hrun]

theorem lowerAll_lowers {source : String} {sourceSpan : Schema.Span} {branches : List AllBranch}
    (hsound : context.scope.Sound parameter)
    (h : lowerAll span name nameSpan source sourceSpan branches context = .ok context') :
    Lowers parameter (consume parameter source ++
      .opened (.result name) :: branches.map fun branch => .opened (.field name branch.name))
      context.scope context'.scope := by
  simp only [lowerAll, bind_ok, require_ok] at h
  obtain ⟨_, hunbound, _, hunproduced, -, -, ⟨⟨origin, typeId⟩, context₁⟩, htake,
    ⟨lowered, context₂⟩, hbranches, h⟩ := h
  cases h
  obtain ⟨hlowers, -⟩ := takeBinding_lowers hsound htake
  have hfields : FieldsSound ([] : List (String × ProductField)) :=
    ⟨List.Pairwise.nil, fun _ _ hfound => by cases hfound⟩
  obtain ⟨hscope, hfields', hrun⟩ :=
    lowerBranches_run name nameSpan hlowers.sound.products hfields hbranches
  have hnone : context₁.scope.view (.result name) = none :=
    Ledger.run_none hlowers.run (congrArg (Option.map _) (requireUnbound_ok hunproduced))
      not_opened_consume
  have hrivals : ∀ other ∈ rivals (.result name), context₁.scope.view other = none :=
    fun other hother => by
      rw [List.mem_singleton.mp hother]
      exact Ledger.run_none hlowers.run (congrArg (Option.map _) (requireUnbound_ok hunbound))
        not_opened_consume
  have hall : Lowers parameter
      (.opened (.result name) :: branches.map fun branch => .opened (.field name branch.name))
      context₁.scope (context₁.scope.withResult name nameSpan lowered.fields) := by
    refine ⟨?_, hlowers.sound.withResult hfields'⟩
    rw [Ledger.run_cons, Ledger.step_opened hnone hrivals, Option.bind_some,
      ← Scope.view_insert_product hlowers.sound.products (Option.map_eq_none_iff.mp hnone) nameSpan]
    exact hrun
  have hresult := hlowers.trans hall
  rw [← hscope] at hresult
  exact hresult

/-! ### Each -/

theorem lowerEachRegion_scope {source : Schema.Span} {concurrency : UInt8}
    {collected : TypeReference} {input : ValueOrigin} {sourceList : UInt16} {region : CompiledEach}
    (h : lowerEachRegion span source concurrency pipeline collected input sourceList context =
      .ok (region, context')) : context'.scope = context.scope := by
  simp only [lowerEachRegion, bind_ok, require_ok, demand_ok] at h
  obtain ⟨⟨itemInput, bound⟩, -, -, -, ⟨⟨output, itemOutput⟩, context₁⟩, hlower, -, -, _, -,
    ⟨collectedItem, collectedBound⟩, -, -, -, h⟩ := h
  cases h
  exact (lowerPipelineTail_scope hlower).1

theorem lowerEach_lowers {item source : String} {itemSpan sourceSpan : Schema.Span}
    {concurrency : UInt8} {collected : TypeReference} (hsound : context.scope.Sound parameter)
    (h : lowerEach span name nameSpan item itemSpan source sourceSpan concurrency pipeline collected
      context = .ok context') :
    Lowers parameter (consume parameter source ++ within parameter item pipeline ++
      [.opened (.binding name)]) context.scope context'.scope := by
  simp only [lowerEach, bind_ok, require_ok] at h
  obtain ⟨_, hname, _, hnameResult, _, hitem, _, hitemResult, _, hstarts,
    ⟨⟨origin, typeId⟩, context₁⟩, htake, ⟨region, context₂⟩, hregion, h⟩ := h
  cases h
  obtain ⟨hlowers, -⟩ := takeBinding_lowers hsound htake
  have hfree : ∀ r, context.scope.view r = none → context₁.scope.view r = none := fun r hr =>
    Ledger.run_none hlowers.run hr not_opened_consume
  have hwithin : Lowers parameter (within parameter item pipeline) context₁.scope context₁.scope :=
    ⟨Scope.run_within hlowers.sound (hfree _ (congrArg (Option.map _) (requireUnbound_ok hitem)))
      (hfree _ (congrArg (Option.map _) (requireUnbound_ok hitemResult))) hstarts, hlowers.sound⟩
  have hopen := Scope.open_lowers hlowers.sound
    (hfree _ (congrArg (Option.map _) (requireUnbound_ok hname)))
    (hfree _ (congrArg (Option.map _) (requireUnbound_ok hnameResult)))
    ⟨.eachOutput context₂.eachRegions.length, region.collected, false, nameSpan⟩ rfl
    (fun heq => by cases heq)
  have hresult := (hlowers.trans hwithin).trans hopen
  rw [← lowerEachRegion_scope hregion] at hresult
  exact hresult

/-! ### Match -/

/-- The cases that are declared stand under their names. -/
theorem declareCases_ok {file : String} {cases : List MatchCase} :
    ∀ {declared declared' : List (String × MatchCase)}, Assoc.Sorted declared →
      cases.foldlM (declareCase file) declared = .ok declared' →
      Assoc.Sorted declared' ∧ (∀ case_ ∈ cases, declared'.lookup case_.name = some case_) ∧
        ∀ name case_, declared.lookup name = some case_ → declared'.lookup name = some case_ := by
  induction cases with
  | nil =>
      intro declared declared' hsorted h
      rw [List.foldlM_nil, pure_ok] at h
      subst h
      exact ⟨hsorted, List.forall_mem_nil _, fun _ _ => id⟩
  | cons first cases ih =>
      intro declared declared' hsorted h
      rw [List.foldlM_cons, bind_ok] at h
      obtain ⟨declared₁, hfirst, hrest⟩ := h
      simp only [declareCase, bind_ok, require_ok] at hfirst
      obtain ⟨-, hnew, hfirst⟩ := hfirst
      cases hfirst
      obtain ⟨hsorted', hcases, hkeep⟩ := ih hsorted.insert hrest
      refine ⟨hsorted', List.forall_mem_cons.mpr ⟨?_, hcases⟩, fun name case_ hcase => ?_⟩
      · exact hkeep _ _ (by rw [Assoc.lookup_insert hsorted, if_pos rfl])
      · have hne : name ≠ first.name := fun heq => by
          rw [← heq, hcase] at hnew
          cases hnew
        exact hkeep _ _ (by rw [Assoc.lookup_insert hsorted, if_neg hne, hcase])

/-- A binding that is used and removed leaves the names as they were. -/
theorem Scope.erase_used {scope' : Scope} (hsound : scope.Sound parameter)
    (hnone : scope.view (.binding name) = none) {binding : Binding}
    (hconsumed : binding.consumed = false)
    (h : Lowers parameter (consume parameter name)
      { scope with bindings := Assoc.insert name binding scope.bindings } scope') :
    { scope' with bindings := Assoc.erase name scope'.bindings }.Sound parameter ∧
      { scope' with bindings := Assoc.erase name scope'.bindings }.view = scope.view := by
  have hne := hsound.ne_parameter hnone
  refine ⟨h.sound.erase hne, ?_⟩
  have hrun := h.run
  rw [Scope.view_insert_binding hsound.bindings, hconsumed, consume_of_ne hne, Ledger.run_cons,
    Ledger.step_used (Function.update_self ..), Option.bind_some, Ledger.run_nil,
    Option.some.injEq] at hrun
  rw [Scope.view_erase_binding, ← hrun, Function.update_idem, Function.update_idem, ← hnone,
    Function.update_eq_self]

theorem inferInput_of_ne (h : pipeline.source ≠ .workflowInput) :
    inferInput pipeline context = .ok context := if_neg fun hinfer => h hinfer.2

/-- One case leaves the names as it found them. -/
theorem lowerCase_ok {dispatch tag : Nat} {declared : List (String × MatchCase)} {payload : UInt16}
    (hsound : context.scope.Sound parameter)
    (h : lowerCase successType dispatch declared context ((name, payload), tag) = .ok context') :
    (context'.scope.Sound parameter ∧ context'.scope.view = context.scope.view) ∧
      ∃ case_, declared.lookup name = some case_ ∧
        context.scope.view (.binding case_.binding) = none ∧
        case_.pipeline.startsFrom case_.binding = true := by
  simp only [lowerCase, bind_ok, demand_ok, require_ok] at h
  obtain ⟨case_, hcase, _, hunbound, _, ⟨hstarts, -⟩, -, -, ⟨⟨origin, typeId⟩, context₁⟩, hlower,
    -, -, h⟩ := h
  have hnone : context.scope.view (.binding case_.binding) = none :=
    congrArg (Option.map _) (requireUnbound_ok hunbound)
  refine ⟨?_, case_, hcase, hnone, hstarts⟩
  cases h
  obtain ⟨span, hsource⟩ := Pipeline.source_of_startsFrom hstarts
  have hopen := hsound.insert hnone ⟨.dispatchCase dispatch (UInt8.ofNat tag), payload, false,
    case_.bindingSpan⟩ (fun heq => by cases heq)
  obtain ⟨hlowers, -⟩ :=
    lowerPipeline_lowers hopen (inferInput_of_ne (by rw [hsource]; simp)) hlower
  rw [hsource] at hlowers
  exact Scope.erase_used hsound hnone rfl hlowers

/-- Entries that each leave the ledger as it was leave it as it was. -/
theorem run_flatMap {α : Type} {state : Ledger.State Resource} {f : α → List (Entry Resource)}
    {items : List α} (h : ∀ item ∈ items, Ledger.run rivals state (f item) = some state) :
    Ledger.run rivals state (items.flatMap f) = some state := by
  induction items with
  | nil => rfl
  | cons item items ih =>
      obtain ⟨hitem, hitems⟩ := List.forall_mem_cons.mp h
      rw [List.flatMap_cons, Ledger.run_append, hitem, Option.bind_some, ih hitems]

/-- Every case starts from the names behind the matched value. -/
theorem lowerCases_ok {dispatch : Nat} {declared : List (String × MatchCase)}
    {entries : List ((String × UInt16) × Nat)}
    (h : entries.foldlM (lowerCase successType dispatch declared) context = .ok context')
    (hsound : context.scope.Sound parameter) :
    (context'.scope.Sound parameter ∧ context'.scope.view = context.scope.view) ∧
      ∀ entry ∈ entries, ∃ case_, declared.lookup entry.1.1 = some case_ ∧
        context.scope.view (.binding case_.binding) = none ∧
        case_.pipeline.startsFrom case_.binding = true := by
  have hround : ∀ between entry between', (between.scope.Sound parameter ∧
      between.scope.view = context.scope.view) →
      lowerCase successType dispatch declared between entry = .ok between' →
      between'.scope.Sound parameter ∧ between'.scope.view = context.scope.view := by
    rintro between ⟨⟨caseName, payload⟩, tag⟩ between' ⟨hbetween, hview⟩ hcase
    obtain ⟨⟨hsound', hview'⟩, -⟩ := lowerCase_ok hbetween hcase
    exact ⟨hsound', hview'.trans hview⟩
  refine ⟨foldlM_invariant hround ⟨hsound, rfl⟩ h, fun entry hentry => ?_⟩
  obtain ⟨between, between', ⟨hbetween, hview⟩, hcase⟩ :=
    foldlM_rounds hround ⟨hsound, rfl⟩ h entry hentry
  obtain ⟨-, hfacts⟩ := lowerCase_ok hbetween hcase
  rwa [hview] at hfacts

theorem lowerMatch_lowers {cases : List MatchCase} (hsound : context.scope.Sound parameter)
    (hresult : ∀ case_ ∈ cases, context.scope.view (.result case_.binding) = none)
    (h : lowerMatch successType span name nameSpan cases context = .ok context') :
    Lowers parameter (consume parameter name ++
      cases.flatMap fun case_ => within parameter case_.binding case_.pipeline)
      context.scope context'.scope := by
  simp only [lowerMatch, bind_ok, demand_ok, require_ok] at h
  obtain ⟨⟨⟨origin, variant⟩, context₁⟩, htake, variantCases, -, declared, hdeclared, -, hsame, h⟩ := h
  obtain ⟨hlowers, -⟩ := takeBinding_lowers hsound htake
  have hempty : Assoc.Sorted ([] : List (String × MatchCase)) := List.Pairwise.nil
  obtain ⟨-, hcases, -⟩ := declareCases_ok hempty hdeclared
  obtain ⟨⟨hsound', hview'⟩, hentries⟩ := lowerCases_ok h hlowers.sound
  refine hlowers.trans ⟨?_, hsound'⟩
  rw [hview']
  refine run_flatMap fun case_ hcase => ?_
  -- the variant has each declared case, and so there was a round for it
  have hmem : case_.name ∈ variantCases.map Prod.fst := by
    rw [hsame]
    exact List.mem_map_of_mem (Assoc.mem_of_lookup (hcases case_ hcase))
  obtain ⟨entry, hentry, hname⟩ := List.mem_map.mp hmem
  obtain ⟨tag, htag⟩ := List.getElem?_of_mem hentry
  obtain ⟨_, hfound, hnone, hstarts⟩ :=
    hentries (entry, tag) (List.mem_zipIdx_iff_getElem?.mpr htag)
  rw [hname, hcases case_ hcase, Option.some.injEq] at hfound
  subst hfound
  exact Scope.run_within hlowers.sound hnone
    (Ledger.run_none hlowers.run (hresult case_ hcase) not_opened_consume) hstarts

/-! ## Workflows -/

theorem Statement.not_opened_result {statement : Statement} (h : name ∉ statement.results) :
    .opened (.result name) ∉ statement.entries parameter :=
  fun hmem => h (Statement.opened_result_iff.mp hmem)

/-- **A statement is lowered as the ledger takes it**, where it shadows no result. -/
theorem lowerStatement_lowers {statement : Statement} (hsound : context.scope.Sound parameter)
    (hresult : ∀ name ∈ statement.locals, context.scope.view (.result name) = none)
    (h : lowerStatement successType context statement = .ok context') :
    Lowers parameter (statement.entries parameter) context.scope context'.scope := by
  cases statement with
  | let_ name nameSpan pipeline =>
      exact lowerLet_lowers hsound (hresult name List.mem_cons_self) h
  | return_ span pipeline => exact lowerReturn_lowers hsound h
  | withinReturn durationMs returnSpan pipeline => exact lowerWithinReturn_lowers hsound h
  | all span name nameSpan source sourceSpan branches => exact lowerAll_lowers hsound h
  | each span name nameSpan item itemSpan source sourceSpan concurrency pipeline collected =>
      exact lowerEach_lowers hsound h
  | match_ span binding bindingSpan cases =>
      exact lowerMatch_lowers hsound
        (fun case_ hcase => hresult case_.binding (List.mem_map_of_mem hcase)) h

/-- **The statements of a workflow are lowered as the ledger takes them.** -/
theorem lowerStatements_lowers {statements : List Statement} :
    ∀ {context : LoweringContext}, context.scope.Sound parameter →
      statements.Pairwise (fun earlier later => ∀ name ∈ earlier.results, name ∉ later.locals) →
      (∀ statement ∈ statements, ∀ name ∈ statement.locals,
        context.scope.view (.result name) = none) →
      statements.foldlM (lowerStatement successType) context = .ok context' →
      Lowers parameter (statements.flatMap (Statement.entries parameter)) context.scope
        context'.scope := by
  induction statements with
  | nil =>
      intro context hsound _ _ h
      rw [List.foldlM_nil, pure_ok] at h
      subst h
      exact ⟨rfl, hsound⟩
  | cons statement statements ih =>
      intro context hsound hpairs hfree h
      rw [List.foldlM_cons, bind_ok] at h
      obtain ⟨context₁, hfirst, hrest⟩ := h
      obtain ⟨hhead, htail⟩ := List.pairwise_cons.mp hpairs
      have hlowers := lowerStatement_lowers hsound (hfree statement List.mem_cons_self) hfirst
      refine hlowers.trans (ih hlowers.sound htail (fun later hlater name hname => ?_) hrest)
      exact Ledger.run_none hlowers.run
        (hfree later (List.mem_cons_of_mem _ hlater) name hname)
        (Statement.not_opened_result fun hin => hhead later hlater name hin hname)

end Statements

section Workflows

variable {catalog : Catalog} {file graphName : String} {workflow : Workflow}
  {context : LoweringContext} {graph : VerifiedGraph catalog}

theorem Scope.view_empty (inputType : Option UInt16) :
    Ledger.run rivals Ledger.empty [.opened .input] =
      some (Scope.mk [] [] inputType false).view := by
  rw [Ledger.run_cons, Ledger.step_opened rfl (List.forall_mem_nil _), Option.bind_some,
    Ledger.run_nil]
  refine congrArg some (funext fun r => ?_)
  cases r with
  | input => exact Function.update_self ..
  | binding | result | field => exact Function.update_of_ne (fun heq => by cases heq) ..

/-- The ledger in front of the statements. -/
theorem initialContext_lowers {errors : List UInt16}
    (h : initialContext catalog file workflow errors = .ok context) :
    context.scope.Sound workflow.parameterName ∧
      Ledger.run rivals Ledger.empty (.opened .input ::
          workflow.parameterName.toList.map fun name => .opened (.binding name)) =
        some context.scope.view ∧ ∀ name, context.scope.view (.result name) = none := by
  unfold initialContext at h
  cases hparameter : workflow.parameter with
  | none =>
      have hname : workflow.parameterName = none := congrArg (Option.map _) hparameter
      rw [hparameter] at h
      cases h
      rw [hname]
      refine ⟨⟨List.Pairwise.nil, List.Pairwise.nil, fun _ _ hlookup => ?_, fun _ hbound => ?_,
        fun _ _ hlookup => ?_, fun hinferred => ?_⟩, Scope.view_empty none, fun _ => rfl⟩
      · cases hlookup
      · cases hbound
      · cases hlookup
      · cases hinferred
  | some parameter =>
      have hname : workflow.parameterName = some parameter.name := congrArg (Option.map _) hparameter
      simp only [hparameter, bind_ok] at h
      obtain ⟨typeId, -, h⟩ := h
      cases h
      rw [hname]
      refine ⟨⟨List.pairwise_singleton _ _, List.Pairwise.nil, fun _ _ hlookup => ?_,
        fun name heq => ?_, fun name binding hlookup _ => ?_, fun _ => .inl rfl⟩, ?_, fun _ => rfl⟩
      · cases hlookup
      · cases heq
        exact ⟨_, List.lookup_cons_self, rfl, by simp⟩
      · have hmem := List.mem_singleton.mp (Assoc.mem_of_lookup hlookup)
        rw [(Prod.mk.inj hmem).1]
        exact .inl rfl
      · have hsorted : Assoc.Sorted (Scope.mk [] [] (some typeId) false).bindings := List.Pairwise.nil
        have hview := @Scope.view_insert_binding _ parameter.name hsorted
          ⟨.workflowInput, typeId, false, parameter.span⟩
        rw [Option.toList_some, List.map_singleton, ← List.singleton_append, Ledger.run_append,
          Scope.view_empty (some typeId), Option.bind_some, Ledger.run_cons,
          Ledger.step_opened rfl (fun other hother => by rw [List.mem_singleton.mp hother]; rfl),
          Option.bind_some, Ledger.run_nil]
        exact congrArg some hview.symm

/-- What is left of an accepted workflow: everything has been consumed. -/
structure Spent (context : LoweringContext) : Prop where
  bindings : ∀ entry ∈ context.bindings, entry.2.consumed = true
  products : ∀ entry ∈ context.products, ∃ field ∈ entry.2.fields, field.2.consumed = true
  inferred : context.inputType.isSome = true

/-- **The ledger of an accepted workflow that shadows nothing.** -/
theorem compileWorkflow_ledger (h : compileWorkflow catalog file workflow graphName = .ok graph)
    (hunshadowed : Unshadowed workflow) :
    ∃ context : LoweringContext, context.scope.Sound workflow.parameterName ∧ Spent context ∧
      Ledger.run rivals Ledger.empty workflow.entries = some context.scope.view := by
  simp only [compileWorkflow, lowerWorkflow, bind_ok, demand_ok] at h
  obtain ⟨⟨successType, context⟩, ⟨_, -, errors, -, initial, hinitial, context', hstatements, ⟨⟩,
    hbindings, ⟨⟩, hproducts, hsame⟩, inputType, hinput, -⟩ := h
  cases hsame
  obtain ⟨hsound, hrun, hfree⟩ := initialContext_lowers hinitial
  have hlowers := lowerStatements_lowers hsound hunshadowed
    (fun _ _ name _ => hfree name) hstatements
  refine ⟨context, hlowers.sound, ⟨fun entry hentry => ?_, fun entry hentry => ?_, ?_⟩, ?_⟩
  · have hconsumed := forM_mem hbindings entry hentry
    rwa [requireConsumed, require_ok] at hconsumed
  · have hconsumed := forM_mem hproducts entry hentry
    rw [requireFieldConsumed, require_ok, List.any_eq_true] at hconsumed
    exact hconsumed
  · rw [hinput]
    rfl
  · rw [Workflow.entries, Ledger.run_append, hrun]
    exact hlowers.run

/-- **What an accepted workflow introduces it consumes, where nothing is shadowed.** -/
theorem disciplined_of_unshadowed
    (h : compileWorkflow catalog file workflow graphName = .ok graph)
    (hunshadowed : Unshadowed workflow) : Disciplined workflow := by
  obtain ⟨context, hsound, hspent, hrun⟩ := compileWorkflow_ledger h hunshadowed
  have hopening : ∀ {before r after}, workflow.entries = before ++ .opened r :: after →
      Ledger.Opening rivals context.scope.view before r after := Ledger.run_spec hrun
  have hstays : ∀ {before r after}, workflow.entries = before ++ .opened r :: after →
      (∀ name, r ≠ .binding name) → .closed r ∉ after := fun {before r after} heq hne hclosed => by
    have hin : .closed r ∈ workflow.entries := by
      rw [heq]
      exact List.mem_append_right _ (List.mem_cons_of_mem _ hclosed)
    obtain ⟨name, hname⟩ := Workflow.closed_of_mem hin
    exact hne name hname
  have hopen : ∀ {before r after}, workflow.entries = before ++ .opened r :: after →
      (∀ name, r ≠ .binding name) → context.scope.view r = some (decide (uses r after = 1)) ∧
        uses r after ≤ 1 := fun heq hne => (hopening heq).open_ (hstays heq hne)
  refine ⟨fun before r after heq => (hopening heq).fresh, fun before name after heq => ?_,
    fun before product field after heq => (hopen heq (by simp)).2, fun product hmem => ?_, ?_⟩
  · -- a binding that is still in scope is among those that were checked last
    by_cases hclosed : .closed (.binding name) ∈ after
    · exact (hopening heq).closed hclosed
    · obtain ⟨binding, hlookup, huses⟩ := Option.map_eq_some_iff.mp ((hopening heq).open_ hclosed).1
      rw [hspent.bindings _ (Assoc.mem_of_lookup hlookup)] at huses
      exact of_decide_eq_true huses.symm
  · obtain ⟨before, after, heq⟩ := List.append_of_mem hmem
    obtain ⟨found, hfound, -⟩ := Option.map_eq_some_iff.mp (hopen heq (by simp)).1
    obtain ⟨⟨field, value⟩, hfield, hconsumed⟩ := hspent.products _ (Assoc.mem_of_lookup hfound)
    have hview : context.scope.view (.field product field) = some true := by
      rw [Scope.view, hfound, Option.bind_some, (hsound.fields _ _ hfound).sorted.lookup hfield]
      exact congrArg some hconsumed
    obtain ⟨before', after', heq', hnot⟩ :=
      (Ledger.isSome_iff_isOpen hrun).mp (Option.isSome_of_eq_some hview)
    have huses : uses (.field product field) after' = 1 := by
      have hdecided := (hopen heq' (by simp)).1
      rw [hview, Option.some.injEq] at hdecided
      exact of_decide_eq_true hdecided.symm
    rw [Ledger.uses_eq_count hnot] at huses
    refine ⟨field, ?_⟩
    rw [heq']
    refine List.mem_append_right _ (List.mem_cons_of_mem _ (List.count_pos_iff.mp ?_))
    omega
  · have hinput : context.scope.inputConsumed = true := by
      rcases hsound.inferred hspent.inferred with hparameter | hused
      · obtain ⟨name, hname⟩ := Option.isSome_iff_exists.mp hparameter
        obtain ⟨binding, hlookup, -, hused⟩ := hsound.bound name hname
        exact hused (hspent.bindings _ (Assoc.mem_of_lookup hlookup))
      · exact hused
    have heq : workflow.entries = [] ++ .opened .input ::
        ((workflow.parameterName.toList.map fun name => .opened (.binding name)) ++
          workflow.statements.flatMap (Statement.entries workflow.parameterName)) := rfl
    obtain ⟨hdecided, -⟩ := hopen heq (by simp)
    have huses := of_decide_eq_true ((Option.some.inj hdecided).symm.trans hinput)
    rw [Ledger.uses_eq_count (hstays heq (by simp))] at huses
    rw [heq, List.nil_append, List.count_cons_of_ne (fun heq => by cases heq), huses]

/-- **An accepted workflow is disciplined if and only if no `let` and no match case shadows the
result of an `all`.** -/
theorem disciplined_iff_unshadowed
    (h : compileWorkflow catalog file workflow graphName = .ok graph) :
    Disciplined workflow ↔ Unshadowed workflow :=
  ⟨unshadowed_of_disciplined, disciplined_of_unshadowed h⟩

end Workflows

/-- An app with one action. -/
def shop : Catalog where
  apps := [{ id := 1, name := "Shop" }]
  types := [{ id := 1, app := 1, name := "Item", representation := .integer },
    { id := 2, app := 1, name := "Fault", representation := .unit }]
  actions := [{ id := 1, app := 1, name := "check", input := 1, success := 1, error := 2 }]

/-- An item is checked twice at once and one result is checked again, under this name. -/
def checkTwice (name : String) : Workflow :=
  let span := Schema.Span.start
  let check : List Invocation := [{ app := "Shop", action := "check", span }]
  { span
    parameter := some { name := "item", typeRef := ⟨"Shop", "Item", span⟩, span }
    success := ⟨"Shop", "Item", span⟩
    errors := [⟨"Shop", "Fault", span⟩]
    errorsSpan := span
    statements := [
      .all span "both" span "item" span
        [{ name := "left", nameSpan := span, pipeline := ⟨.binding "item" span, check⟩ },
         { name := "right", nameSpan := span, pipeline := ⟨.binding "item" span, check⟩ }],
      .let_ name span ⟨.productField "both" "left" span, check⟩,
      .return_ span ⟨.binding name span, check⟩] }

theorem disciplined_iff_unshadowed_again : ∃ graph,
    compileWorkflow shop "shop.hscript" (checkTwice "again") "check" = .ok graph ∧
      (Disciplined (checkTwice "again") ↔ Unshadowed (checkTwice "again")) := by
  have haccepted : (compileWorkflow shop "shop.hscript" (checkTwice "again") "check").toBool := by
    decide +kernel
  match h : compileWorkflow shop "shop.hscript" (checkTwice "again") "check" with
  | .ok graph => exact ⟨graph, rfl, disciplined_iff_unshadowed h⟩
  | .error failure =>
      rw [h] at haccepted
      cases haccepted

/-- The name of the result is taken by a `let` while the result is in scope. -/
theorem shadowing_accepted : ¬ ∀ (catalog : Catalog) (file : String) (workflow : Workflow)
    (graphName : String) (graph : VerifiedGraph catalog),
    compileWorkflow catalog file workflow graphName = .ok graph → Disciplined workflow := by
  intro h
  have haccepted : (compileWorkflow shop "shop.hscript" (checkTwice "both") "check").toBool := by
    decide +kernel
  match hgraph : compileWorkflow shop "shop.hscript" (checkTwice "both") "check" with
  | .ok graph =>
      have hunshadowed := unshadowed_of_disciplined (h _ _ _ _ graph hgraph)
      exact absurd hunshadowed (by decide)
  | .error failure =>
      rw [hgraph] at haccepted
      cases haccepted

end Hermas.Script
