import ScriptSandbox.Host.Standalone
import ScriptSandbox.Proofs.Expression.Moments

/-!
What an expression can change. Compiling adds containers to the heap and puts questions to the host;
running the compiled items may change an array, and only one that a reference of the expression is
bound to, by an operator that stands in the expression as such. All else stays as it was.
-/

namespace ScriptSandbox

namespace Heap

/-- The second heap is the first with containers added and with changes to none but the given
arrays. -/
structure Confined (may : Nat → Prop) (before after : Heap) : Prop where
  functions : after.functions = before.functions
  has : ∀ container, before.Has container → after.Has container
  records : ∀ record, before.Has (.record record) → after.fields record = before.fields record
  arrays : ∀ handle, before.Has (.array handle) → ¬may handle →
    after.items handle = before.items handle

section

variable {may : Nat → Prop} {before middle after : Heap}

theorem confined_refl (heap : Heap) : heap.Confined may heap :=
  ⟨rfl, fun _ has => has, fun _ _ => rfl, fun _ _ _ => rfl⟩

theorem Confined.trans (first : before.Confined may middle) (second : middle.Confined may after) :
    before.Confined may after := by
  constructor
  · exact second.functions.trans first.functions
  · exact fun container has => second.has container (first.has container has)
  · intro record has
    exact (second.records record (first.has _ has)).trans (first.records record has)
  · intro handle has free
    exact (second.arrays handle (first.has _ has) free).trans (first.arrays handle has free)

theorem Confined.mono {more : Nat → Prop} (confined : before.Confined may after)
    (wider : ∀ handle, may handle → more handle) : before.Confined more after :=
  ⟨confined.functions, confined.has, confined.records,
    fun handle has free => confined.arrays handle has fun allowed => free (wider handle allowed)⟩

theorem Makes.confined {made : Container} {values : List Value} (makes : before.Makes after made values)
    (functions : after.functions = before.functions) : before.Confined may after := by
  have other {container : Container} (has : before.Has container) : container ≠ made := by
    intro same
    rw [same] at has
    exact makes.new has
  constructor
  · exact functions
  · exact fun container has => (makes.has container).mpr (.inl has)
  · exact fun record has => makes.same (.record record) (other has)
  · exact fun handle has _ => makes.same (.array handle) (other has)

end

section

variable {may : Nat → Prop}

theorem modify_items_confined (heap : Heap) {handle : Nat} (allowed : may handle)
    (change : Array Value → Array Value) : heap.Confined may (heap.modifyItems handle change) := by
  constructor
  · rfl
  · exact fun container => (heap.has_modify_items handle change).mpr
  · exact fun record _ => rfl
  · intro other _ free
    apply @same_after_modify_items heap handle change (.array other)
    intro same
    cases same
    exact free allowed

mutual

theorem load_confined (heap : Heap) (json : Json) : heap.Confined may (heap.load json).2 := by
  cases json with
  | array items =>
      have items := load_items_confined heap items
      exact items.trans ((new_array_makes _ _).confined rfl)
  | object fields =>
      have fields := load_fields_confined heap fields
      exact fields.trans ((new_record_makes _ _).confined rfl)
  | _ => exact heap.confined_refl

theorem load_items_confined (heap : Heap) (items : List Json) :
    heap.Confined may (heap.loadItems items).2 := by
  cases items with
  | nil => exact heap.confined_refl
  | cons item rest => exact (load_confined heap item).trans (load_items_confined _ rest)

theorem load_fields_confined (heap : Heap) (fields : List (String × Json)) :
    heap.Confined may (heap.loadFields fields).2 := by
  cases fields with
  | nil => exact heap.confined_refl
  | cons field rest => exact (load_confined heap field.2).trans (load_fields_confined _ rest)

end

end

end Heap

/-- Whether an event draws on the surface. -/
def Event.isDrawing : Event → Bool
  | .fillColor _ | .fillRect .. => true
  | _ => false

/-- What was drawn on the surface, in order. -/
def Host.drawings (host : Host) : List Event :=
  host.events.toList.filter Event.isDrawing

/-- Whether the operator changes the array bound to its first operand. -/
def Operator.changesArray : Operator → Bool
  | .push | .pop | .splice => true
  | _ => false

namespace Code

variable {scope : Scope} {line : Nat}

/-- The array is bound to one of the references. -/
def Bound (scope : Scope) (references : String → Prop) (handle : Nat) : Prop :=
  ∃ name, references name ∧ scope.bindings.get? name = some (.array handle)

/-- An operator changes at most the array that a reference on the stack is bound to. -/
theorem apply_confined {operator : Operator} {stack : List Operand} {heap after : Heap}
    {result : Except Fault (List Operand)}
    (applied : apply scope line operator stack heap = (result, after)) :
    heap.Confined (fun handle => operator.changesArray = true ∧
      Bound scope (fun name => .reference name ∈ stack) handle) after := by
  unfold apply at applied
  split at applied
  · next value array rest =>
      split at applied
      · cases applied
        exact heap.confined_refl
      · next handle target =>
          cases applied
          obtain ⟨name, rfl, bound⟩ := Operand.target_reference target
          exact heap.modify_items_confined ⟨rfl, name, by simp, bound⟩ _
  · next array rest =>
      split at applied
      · cases applied
        exact heap.confined_refl
      · next handle target =>
          cases applied
          obtain ⟨name, rfl, bound⟩ := Operand.target_reference target
          exact heap.modify_items_confined ⟨rfl, name, by simp, bound⟩ _
  · split at applied
    · cases applied
      exact heap.confined_refl
    · cases applied
      exact (Heap.new_array_makes heap _).confined rfl
  · next amount start array rest =>
      split at applied
      · cases applied
        exact heap.confined_refl
      · next handle target =>
          cases applied
          obtain ⟨name, rfl, bound⟩ := Operand.target_reference target
          exact heap.modify_items_confined ⟨rfl, name, by simp, bound⟩ _
  · split at applied
    · cases applied
      exact heap.confined_refl
    · cases applied
      exact heap.confined_refl
  · cases applied
    exact heap.confined_refl

/-- What an operator leaves of references was on the stack before it. -/
theorem apply_references {operator : Operator} {stack next : List Operand} {heap after : Heap}
    (applied : apply scope line operator stack heap = (.ok next, after)) {name : String}
    (member : .reference name ∈ next) : .reference name ∈ stack := by
  rcases apply_effect applied with ⟨fault, failed, -⟩ | ⟨value, rest, done, suffix, -⟩
  · cases failed
  · cases done
    rcases List.mem_cons.mp member with same | kept
    · cases same
    · exact suffix.subset kept

/-- What running items on a stack may change: with an operator among them that changes arrays, the
arrays bound to a reference among them or on the stack. -/
def Reach (scope : Scope) (items : List Item) (stack : List Operand) (handle : Nat) : Prop :=
  (∃ operator : Operator, .operator operator ∈ items ∧ operator.changesArray = true) ∧
    Bound scope (fun name => .reference name ∈ items ∨ .reference name ∈ stack) handle

theorem Reach.cons {item : Item} {items : List Item} {stack longer : List Operand} {handle : Nat}
    (reach : Reach scope items longer handle)
    (given : ∀ name, .reference name ∈ longer → .reference name ∈ item :: items ∨
      .reference name ∈ stack) : Reach scope (item :: items) stack handle := by
  obtain ⟨⟨operator, listed, changes⟩, name, referred, bound⟩ := reach
  refine ⟨⟨operator, List.mem_cons_of_mem _ listed, changes⟩, name, ?_, bound⟩
  rcases referred with among | held
  · exact .inl (List.mem_cons_of_mem _ among)
  · exact given name held

theorem run_confined (items : List Item) (stack : List Operand) (heap : Heap) :
    heap.Confined (Reach scope items stack) (run scope line items stack heap).2 := by
  fun_induction run scope line items stack heap with
  | case1 stack heap => exact heap.confined_refl
  | case2 value rest stack heap ih =>
      apply ih.mono
      intro handle reach
      apply reach.cons
      intro name member
      exact .inr (by simpa using member)
  | case3 name rest stack heap ih =>
      apply ih.mono
      intro handle reach
      apply reach.cons
      intro other member
      rcases List.mem_cons.mp member with same | kept
      · cases same
        exact .inl List.mem_cons_self
      · exact .inr kept
  | case4 operator rest stack heap fault changed applied =>
      apply (apply_confined applied).mono
      rintro handle ⟨changes, name, held, bound⟩
      exact ⟨⟨operator, List.mem_cons_self, changes⟩, name, .inr held, bound⟩
  | case5 operator rest stack heap next changed applied ih =>
      -- What the rest of the run finds on its stack was there before the operator.
      have first := apply_confined applied
      apply Heap.Confined.trans (first.mono _) (ih.mono _)
      · rintro handle ⟨changes, name, held, bound⟩
        exact ⟨⟨operator, List.mem_cons_self, changes⟩, name, .inr held, bound⟩
      · intro handle reach
        apply reach.cons
        exact fun name member => .inr (apply_references applied member)

theorem evaluate_confined (items : List Item) (heap : Heap) :
    heap.Confined (Reach scope items []) (evaluate scope line items heap).2 := by
  have ran := @run_confined scope line items [] heap
  unfold evaluate
  split
  · next found => rwa [found] at ran
  · next found => rwa [found] at ran
  · next found => rwa [found] at ran

end Code

def Waiting.item? : Waiting → Option Item
  | .operator found => some (.operator found)
  | .parenthesis => none

namespace Yard

/-- All items in the yard, sent on or waiting. -/
def items (yard : Yard) : List Item :=
  yard.output ++ yard.waiting.filterMap Waiting.item?

theorem release_items (arriving : Operator) (output : List Item) (waiting : List Waiting) :
    (release arriving output waiting).items.Perm (output ++ waiting.filterMap Waiting.item?) := by
  fun_induction release arriving output waiting with
  | case1 => exact .refl _
  | case2 output top rest _ ih => exact ih.trans List.perm_middle.symm
  | case3 => exact .refl _

theorem operator_items (yard : Yard) (arriving : Operator) :
    (yard.operator arriving).items.Perm (.operator arriving :: yard.items) := by
  have released := release_items arriving yard.output yard.waiting
  exact List.perm_middle.trans (released.cons _)

theorem close_from_items {output : List Item} {waiting : List Waiting} {closed : Yard}
    (closes : closeFrom output waiting = some closed) :
    closed.items.Perm (output ++ waiting.filterMap Waiting.item?) := by
  fun_induction closeFrom output waiting with
  | case1 => cases closes
  | case2 output rest =>
      cases closes
      exact .refl _
  | case3 output top rest ih => exact (ih closes).trans List.perm_middle.symm

theorem drain_items {output items : List Item} {waiting : List Waiting}
    (drained : drain output waiting = some items) :
    items.Perm (output ++ waiting.filterMap Waiting.item?) := by
  fun_induction drain output waiting with
  | case1 output =>
      cases drained
      rw [List.filterMap_nil, List.append_nil]
      exact List.reverse_perm output
  | case2 => cases drained
  | case3 output top rest ih => exact (ih drained).trans List.perm_middle.symm

end Yard

namespace Lexeme

/-- The item an operand or operator stands for by itself. -/
def item? : Lexeme → Option Item
  | .reference name => some (.reference name)
  | .operator found => some (.operator found)
  | _ => none

def isCall : Lexeme → Bool
  | .call _ => true
  | _ => false

/-- The lexemes of an expression from left to right, a capability with the tokens it takes as its
arguments. They end before a token that is none, or that lacks arguments. -/
def split (scope : Scope) : List String → List (Lexeme × List String)
  | [] => []
  | token :: rest =>
      match ofToken scope token with
      | .error _ => []
      | .ok (.call capability) =>
          if rest.length < capability.arity then []
          else
            (.call capability, rest.take capability.arity) ::
              split scope (rest.drop capability.arity)
      | .ok lexeme => (lexeme, []) :: split scope rest
termination_by tokens => tokens.length
decreasing_by
  all_goals simp only [List.length_cons, List.length_drop]
  all_goals omega

theorem split_cons {scope : Scope} {token : String} {lexeme : Lexeme}
    (found : ofToken scope token = .ok lexeme) (plain : lexeme.isCall = false)
    (rest : List String) : split scope (token :: rest) = (lexeme, []) :: split scope rest := by
  rw [split, found]
  cases lexeme with
  | call capability => cases plain
  | _ => rfl

theorem split_call {scope : Scope} {token : String} {capability : Capability} {rest : List String}
    (found : ofToken scope token = .ok (.call capability))
    (enough : ¬rest.length < capability.arity) :
    split scope (token :: rest) = (.call capability, rest.take capability.arity) ::
      split scope (rest.drop capability.arity) := by
  rw [split, found]
  exact if_neg enough

/-- What is in the yard behind the first lexeme was there before it, or is that lexeme. -/
theorem among_cons {yard grown : Yard} {item : Item} {first : Lexeme × List String}
    {parts : List (Lexeme × List String)}
    (grows : item ∈ grown.items → item ∈ yard.items ∨ first.1.item? = some item)
    (later : item ∈ grown.items ∨ ∃ part ∈ parts, part.1.item? = some item) :
    item ∈ yard.items ∨ ∃ part ∈ first :: parts, part.1.item? = some item := by
  rcases later with held | ⟨part, listed, shown⟩
  · rcases grows held with before | new
    · exact .inl before
    · exact .inr ⟨first, List.mem_cons_self, new⟩
  · exact .inr ⟨part, List.mem_cons_of_mem _ listed, shown⟩

theorem token_of_split {scope : Scope} {tokens : List String} {part : Lexeme × List String}
    (member : part ∈ split scope tokens) : ∃ token ∈ tokens, ofToken scope token = .ok part.1 := by
  fun_induction split scope tokens with
  | case1 | case2 | case3 => cases member
  | case4 token rest capability found enough ih =>
      rcases List.mem_cons.mp member with same | later
      · rw [same]
        exact ⟨token, List.mem_cons_self, found⟩
      · obtain ⟨other, listed, read⟩ := ih later
        exact ⟨other, List.mem_cons_of_mem _ (List.mem_of_mem_drop listed), read⟩
  | case5 token rest lexeme plain found ih =>
      rcases List.mem_cons.mp member with same | later
      · rw [same]
        exact ⟨token, List.mem_cons_self, found⟩
      · obtain ⟨other, listed, read⟩ := ih later
        exact ⟨other, List.mem_cons_of_mem _ listed, read⟩

end Lexeme

namespace Machine

open Lexeme

/-- The second machine comes from the first by loading data and asking the host: nothing is stored
and no container changes. -/
structure Loads (before after : Machine) : Prop where
  scope : after.scope = before.scope
  store : after.host.store = before.host.store
  heap : before.heap.Confined (fun _ => False) after.heap

theorem loads_refl (machine : Machine) : Loads machine machine :=
  ⟨rfl, rfl, machine.heap.confined_refl⟩

theorem Loads.trans {first second third : Machine} (before : Loads first second)
    (after : Loads second third) : Loads first third :=
  ⟨after.scope.trans before.scope, after.store.trans before.store, before.heap.trans after.heap⟩

theorem loads_carried : Carried Loads where
  refl := loads_refl
  trans := Loads.trans
  load machine json := ⟨rfl, rfl, machine.heap.load_confined json⟩
  ask machine _ _ _ _ store := ⟨rfl, store, machine.heap.confined_refl⟩

section

variable {answer : Answerer} (answers : ∀ capability arguments line machine,
  Loads machine (answer capability arguments line machine).2)
include answers

/-- The references and operators among the items are lexemes of the expression. -/
theorem compile_with_items {line : Nat} {tokens : List String} {yard : Yard}
    {machine next : Machine} {items : List Item}
    (compiled : compileWith answer line tokens yard machine = (.ok items, next)) {item : Item}
    (member : item ∈ items) (unlit : item.literal? = none) :
    item ∈ yard.items ∨ ∃ part ∈ split machine.scope tokens, part.1.item? = some item := by
  -- Data and the answers of capabilities enter the yard as literals, which are left out here.
  have literal {yard : Yard} {value : Value} {first : Lexeme}
      (held : item ∈ (yard.operand (.literal value)).items) :
      item ∈ yard.items ∨ first.item? = some item := by
    rcases List.mem_cons.mp held with same | before
    · rw [same] at unlit
      cases unlit
    · exact .inl before
  fun_induction compileWith answer line tokens yard machine with
  | case1 yard machine final finished =>
      cases compiled
      exact .inl ((Yard.drain_items finished).mem_iff.mp member)
  | case2 | case3 | case10 | case11 | case12 => cases compiled
  | case4 yard machine token rest value found ih =>
      rw [split_cons found rfl]
      exact among_cons literal (ih compiled)
  | case5 yard machine token rest json found value loaded loading ih =>
      have scope := (loads_carried.load machine json).scope
      rw [loading] at scope
      rw [split_cons found rfl, ← scope]
      exact among_cons literal (ih compiled)
  | case6 yard machine token rest name found ih =>
      rw [split_cons found rfl]
      apply among_cons _ (ih compiled)
      intro held
      rcases List.mem_cons.mp held with same | before
      · exact .inr (congrArg some same.symm)
      · exact .inl before
  | case7 yard machine token rest operator found ih =>
      rw [split_cons found rfl]
      apply among_cons _ (ih compiled)
      intro held
      rcases List.mem_cons.mp ((yard.operator_items operator).mem_iff.mp held) with same | before
      · exact .inr (congrArg some same.symm)
      · exact .inl before
  | case8 yard machine token rest found ih =>
      rw [split_cons found rfl]
      exact among_cons .inl (ih compiled)
  | case9 yard machine token rest found closed closes ih =>
      rw [split_cons found rfl]
      apply among_cons _ (ih compiled)
      exact fun held => .inl ((Yard.close_from_items closes).mem_iff.mp held)
  | case13 yard machine token rest capability found enough value asked answered ih =>
      have scope := (answers capability (rest.take capability.arity) line machine).scope
      rw [answered] at scope
      rw [split_call found enough, ← scope]
      exact among_cons literal (ih compiled)

/-- What evaluating tokens may change: with an operator among them that changes arrays, the arrays
bound to a reference among them. -/
def Reach (scope : Scope) (tokens : List String) (handle : Nat) : Prop :=
  (∃ operator arguments, (.operator operator, arguments) ∈ split scope tokens ∧
    operator.changesArray = true) ∧
  ∃ token ∈ tokens, ∃ name, ofToken scope token = .ok (.reference name) ∧
    scope.bindings.get? name = some (.array handle)

theorem run_items_confined {line : Nat} {tokens : List String} {machine next : Machine}
    {items : List Item} (compiled : compileWith answer line tokens .empty machine = (.ok items, next)) :
    next.heap.Confined (Reach machine.scope tokens) (runItems line items next).2.heap := by
  have scope : next.scope = machine.scope := by
    have loads := loads_carried.compile_with answers line tokens .empty machine
    rw [compiled] at loads
    exact loads.scope
  have lexeme {item : Item} (listed : item ∈ items) (unlit : item.literal? = none) :
      ∃ part ∈ split machine.scope tokens, part.1.item? = some item := by
    rcases compile_with_items answers compiled listed unlit with none | found
    · cases none
    · exact found
  have ran := @Code.evaluate_confined next.scope line items next.heap
  apply ran.mono
  rintro handle ⟨⟨operator, listed, changes⟩, name, referred | held, bound⟩
  · constructor
    · obtain ⟨⟨found, arguments⟩, member, shown⟩ := lexeme listed rfl
      cases found <;> cases shown
      exact ⟨operator, arguments, member, changes⟩
    · obtain ⟨⟨found, arguments⟩, member, shown⟩ := lexeme referred rfl
      cases found <;> cases shown
      obtain ⟨token, among, read⟩ := token_of_split member
      rw [scope] at bound
      exact ⟨token, among, name, read, bound⟩
  · cases held

theorem evaluate_with_confined (tokens : List String) (line : Nat) (machine : Machine) :
    machine.heap.Confined (Reach machine.scope tokens)
      (evaluateWith answer tokens line machine).2.heap := by
  have loads := loads_carried.compile_with answers line tokens .empty machine
  have compiling : machine.heap.Confined (Reach machine.scope tokens)
      (compileWith answer line tokens .empty machine).2.heap :=
    loads.heap.mono fun _ => False.elim
  unfold evaluateWith
  split
  · next found => rwa [found] at compiling
  · next found => rwa [found] at compiling
  · next found =>
      rw [found] at compiling
      exact compiling.trans (run_items_confined answers found)

theorem evaluate_with_scope_store (tokens : List String) (line : Nat) (machine : Machine) :
    (evaluateWith answer tokens line machine).2.scope = machine.scope ∧
      (evaluateWith answer tokens line machine).2.host.store = machine.host.store := by
  have loads := loads_carried.compile_with answers line tokens .empty machine
  have kept := And.intro loads.scope loads.store
  unfold evaluateWith
  split
  · next found => rwa [found] at kept
  · next found => rwa [found] at kept
  · next found => rwa [found] at kept

/-- A single token is not both an operator and a reference, so it changes nothing. -/
theorem evaluate_single_loads (token : String) (line : Nat) (machine : Machine) :
    Loads machine (evaluateWith answer [token] line machine).2 := by
  obtain ⟨scope, store⟩ := evaluate_with_scope_store answers [token] line machine
  refine ⟨scope, store, ?_⟩
  apply (evaluate_with_confined answers [token] line machine).mono
  -- To reach an array takes two lexemes, and one token is only one of them.
  rintro handle ⟨⟨operator, arguments, member, -⟩, other, among, name, referred, -⟩
  obtain ⟨same, single, operates⟩ := token_of_split member
  rw [List.mem_singleton.mp single] at operates
  rw [List.mem_singleton.mp among, operates] at referred
  cases referred

end

theorem argument_loads (token : String) (line : Nat) (machine : Machine) :
    Loads machine (argument token line machine).2 :=
  evaluate_single_loads loads_carried.answer_plain token line machine

theorem answer_all_loads (capability : Capability) (arguments : List String) (line : Nat)
    (machine : Machine) : Loads machine (answerAll capability arguments line machine).2 :=
  loads_carried.answer_all argument_loads capability arguments line machine

/-- Answers like `answerAll`, with the arguments evaluated by the given answers in turn. -/
def answerOver (inner : Answerer) : Answerer
  | .load, [key], line, machine =>
      match evaluateWith inner [key] line machine with
      | (.error fault, read) => (.error fault, read)
      | (.ok value, read) => answerLoad (read.heap.textOf value) line read
  | .fetch, [url], line, machine =>
      match evaluateWith inner [url] line machine with
      | (.error fault, read) => (.error fault, read)
      | (.ok value, read) => answerFetch (bareUrl (read.heap.textOf value)) line read
  | .round, [number], line, machine =>
      match evaluateWith inner [number] line machine with
      | (.error fault, read) => (.error fault, read)
      | (.ok value, read) => (.ok (.number (read.heap.numberOf value).round), read)
  | .random, [least, greatest], line, machine =>
      match evaluateWith inner [least] line machine with
      | (.error fault, read) => (.error fault, read)
      | (.ok first, read) =>
          match evaluateWith inner [greatest] line read with
          | (.error fault, both) => (.error fault, both)
          | (.ok second, both) =>
              let (value, drawn) := answerRandom first second both
              (.ok value, drawn)
  | capability, arguments, line, machine => answerPlain capability arguments line machine

theorem answer_all_eq : answerAll = answerOver answerPlain := by
  funext capability arguments line machine
  rfl

/-- A single token asks at most a capability without arguments. -/
theorem evaluate_single_eq {answer other : Answerer}
    (same : ∀ capability : Capability, capability.arity = 0 → answer capability [] = other capability [])
    (token : String) : evaluateWith answer [token] = evaluateWith other [token] := by
  have ended (line : Nat) (yard : Yard) (machine : Machine) :
      compileWith answer line [] yard machine = compileWith other line [] yard machine := by
    rw [compileWith, compileWith]
  have compiled (line : Nat) (machine : Machine) :
      compileWith answer line [token] .empty machine =
        compileWith other line [token] .empty machine := by
    rw [compileWith.eq_def answer line [token], compileWith.eq_def other line [token]]
    cases found : Lexeme.ofToken machine.scope token with
    | error cause => simp only [found]
    | ok lexeme =>
        cases lexeme with
        | call capability =>
            by_cases plain : capability.arity = 0
            · simp only [found, List.take_nil, List.drop_nil, same capability plain, ended]
            · have missing : ([] : List String).length < capability.arity := Nat.pos_of_ne_zero plain
              simp only [found, if_pos missing]
        | _ => simp only [found, ended]
  funext line machine
  unfold evaluateWith
  rw [compiled]

theorem answer_over_congr {inner other : Answerer}
    (same : ∀ token, evaluateWith inner [token] = evaluateWith other [token]) :
    answerOver inner = answerOver other := by
  unfold answerOver
  simp only [same]

theorem answer_over_plain (inner : Answerer) {capability : Capability} (plain : capability.arity = 0) :
    answerOver inner capability [] = answerPlain capability [] := by
  cases capability with
  | elapsed | width | height => rfl
  | load | fetch | random | round => cases plain

/-- Answering goes two levels deep: what a third would answer is never asked. -/
theorem answer_over_over (inner : Answerer) : answerOver (answerOver inner) = answerAll := by
  rw [answer_all_eq]
  apply answer_over_congr
  apply evaluate_single_eq
  exact fun _ => answer_over_plain inner

/-- Only `answerAll` has the arguments evaluated like any other expression. -/
theorem answer_over_eq_iff (answer : Answerer) : answerOver answer = answer ↔ answer = answerAll := by
  constructor
  · intro fixed
    have twice := answer_over_over answer
    rwa [fixed, fixed] at twice
  · intro all
    have twice := answer_over_over answerPlain
    rwa [← answer_all_eq, ← all] at twice

/-- What evaluating keeps: the second machine has the scope, the control state, the output, the
drawings and the store of the first, and of the containers of the first none but the given arrays
differ. -/
structure Frame (may : Nat → Prop) (before after : Machine) : Prop where
  scope : after.scope = before.scope
  control : after.control = before.control
  output : after.host.outputLines = before.host.outputLines
  drawings : after.host.drawings = before.host.drawings
  store : after.host.store = before.host.store
  heap : before.heap.Confined may after.heap

theorem Asks.frame {may : Nat → Prop} {before after : Machine} (asks : Asks before after)
    (store : after.host.store = before.host.store) (heap : before.heap.Confined may after.heap) :
    Frame may before after := by
  obtain ⟨questions, trace, questioning⟩ := asks.events
  have unwritten : questions.filterMap Event.line? = [] := by
    apply List.filterMap_eq_nil_iff.mpr
    intro event member
    have question := questioning event member
    cases event <;> first | rfl | cases question
  have undrawn : questions.filter Event.isDrawing = [] := by
    apply List.filter_eq_nil_iff.mpr
    intro event member
    have question := questioning event member
    cases event <;> first | exact Bool.false_ne_true | cases question
  refine ⟨asks.scope, asks.control, ?_, ?_, store, heap⟩
  · unfold Host.outputLines
    rw [trace, List.filterMap_append, unwritten, List.append_nil]
  · unfold Host.drawings
    rw [trace, List.filter_append, undrawn, List.append_nil]

/-- Evaluating tokens, whatever comes of it, changes no array but one bound to a reference among
them, and that only by an operator among them that changes arrays. Compiling them changes none,
with the arguments of capabilities evaluated like any other expression: `answerAll` is the only
solution of that recursion, which ends two levels down. -/
theorem evaluate_frame (tokens : List String) (line : Nat) (machine : Machine) :
    Frame (Reach machine.scope tokens) machine (machine.evaluate tokens line).2 ∧
      Frame (fun _ => False) machine (machine.compile tokens line).2 ∧
      (∀ answer, answerOver answer = answer ↔ answer = answerAll) ∧
      ∀ inner, answerOver (answerOver inner) = answerAll := by
  refine ⟨?_, ?_, answer_over_eq_iff, answer_over_over⟩
  · have confined := evaluate_with_confined answer_all_loads tokens line machine
    have kept := evaluate_with_scope_store answer_all_loads tokens line machine
    exact (evaluate_asks tokens line machine).frame kept.2 confined
  · have loads := loads_carried.compile_with answer_all_loads line tokens .empty machine
    have asks := asks_carried.compile_with answer_all_asks line tokens .empty machine
    exact asks.frame loads.store loads.heap

/-- Pushing to one of two arrays by its name changes that one alone. -/
theorem evaluate_frame_push :
    ∃ machine : Machine, machine.heap.Has (.array 0) ∧ machine.heap.Has (.array 1) ∧
      (machine.evaluate ["ref:xs", "push", "7"] 1).2.heap.items 0 ≠ machine.heap.items 0 ∧
      (machine.evaluate ["ref:xs", "push", "7"] 1).2.heap.items 1 = machine.heap.items 1 := by
  let bindings : Table Value := [("xs", .array 0), ("ys", .array 1)]
  let machine : Machine :=
    { Machine.start 1 (Host.standalone .zero .zero .empty 0) with
      scope := ⟨bindings, []⟩
      heap := ⟨#[#[], #[.array 0]], #[], #[]⟩ }
  have second : machine.heap.Has (.array 1) := Nat.lt_add_one 1
  have unreached : ¬Reach machine.scope ["ref:xs", "push", "7"] 1 := by
    rintro ⟨-, token, among, name, referred, bound⟩
    have shown : (["ref:xs", "push", "7"].filterMap fun token =>
        (ofToken machine.scope token).toOption.bind item?) = [.reference "xs", .operator .push] := by
      decide +kernel
    have listed : Item.reference name ∈ [Item.reference "xs", Item.operator .push] := by
      rw [← shown]
      apply List.mem_filterMap.mpr
      exact ⟨token, among, by rw [referred]; rfl⟩
    have named : name = "xs" := by simpa using listed
    rw [named] at bound
    revert bound
    decide +kernel
  obtain ⟨frame, -⟩ := evaluate_frame ["ref:xs", "push", "7"] 1 machine
  refine ⟨machine, Nat.two_pos, second, by decide +kernel, ?_⟩
  exact frame.heap.arrays 1 second unreached

end Machine

end ScriptSandbox
