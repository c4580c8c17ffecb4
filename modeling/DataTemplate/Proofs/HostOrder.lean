/-
What a host is asked while code is made.  It is asked about every expression of the tree once, in
document order, and is shown the arrays, objects and strings around it; and the code is that of the
same tree with the answers in place of the texts of its expressions.  Main statement:
`generate_asks`.
-/
import DataTemplate.Proofs.ExpressionMaps
import DataTemplate.Proofs.OnePass

namespace DataTemplate

variable {τ : Type}

/-! ### Expressions and the nodes around them -/

/-- A node and all nodes below it in document order, each behind the nodes above it, outermost
first. -/
def Node.walk (above : List Node) (node : Node) : List (List Node × Node) :=
  (above, node) :: node.children.attach.flatMap fun child => child.1.walk (above ++ [node])
termination_by node.preorder.length
decreasing_by exact Node.preorder_length_lt child.2

theorem Node.walk_eq (above : List Node) (node : Node) :
    node.walk above = (above, node) :: node.children.flatMap (walk (above ++ [node])) := by
  rw [walk]
  simp only [List.flatMap_subtype, List.unattach_attach]

/-- Whether a node is an array, an object or a string. -/
def Node.encloses : Node → Bool
  | value (.text _) => true
  | value (.array _ _) => true
  | value (.object _ _) => true
  | _ => false

/-- An expression on a walk, and the arrays, objects and strings above it. -/
def site? (place : List Node × Node) : Option (List Node × Expression) :=
  place.2.expression?.map fun e => (place.1.filter Node.encloses, e)

/-- The expressions below a node in document order, each behind what encloses it. -/
def Node.sites (above : List Node) (node : Node) : List (List Node × Expression) :=
  (node.walk above).filterMap site?

/-- The expressions of a value in document order, each behind the arrays, objects and strings around
it, outermost first. -/
def Value.sites (value : Value) : List (List Node × Expression) := (Node.value value).sites []

theorem Node.walk_nodes (node : Node) (above : List Node) :
    (node.walk above).map Prod.snd = node.preorder := by
  induction node using Node.induction generalizing above with
  | node node ih =>
    rw [walk_eq, preorder_eq, List.map_cons, List.map_flatMap]
    exact congrArg (node :: ·) (List.flatMap_congr fun child hchild => ih child hchild _)

/-- The sites of a tree are its expressions. -/
theorem Node.sites_expressions (node : Node) (above : List Node) :
    (node.sites above).map Prod.snd = expressionsOf node.preorder := by
  rw [← node.walk_nodes above, expressionsOf, sites, List.map_filterMap, List.filterMap_map]
  refine congrArg (List.filterMap · _) (funext fun place => ?_)
  cases hexpression : place.2.expression? <;> simp [site?, hexpression]

theorem Node.sites_eq (above : List Node) {node : Node} (h : node.expression? = none) :
    node.sites above = node.children.flatMap (sites (above ++ [node])) := by
  rw [sites, walk_eq, List.filterMap_cons_none (by simp [site?, h]), List.filterMap_flatMap]
  rfl

theorem Node.sites_leaf (above : List Node) {node : Node} (h : node.children = [])
    (hnone : node.expression? = none) : node.sites above = [] := by
  rw [sites_eq above hnone, h, List.flatMap_nil]

theorem Node.sites_expression (above : List Node) (e : Expression) :
    (Node.value (.expression e)).sites above = [(above.filter encloses, e)] := by
  rw [sites, walk_eq]
  rfl

theorem Text.sites_node (above : List Node) (t : Text) :
    (Node.value (.text t)).sites above =
      t.more.map fun part => (above.filter Node.encloses ++ [.value (.text t)], part.1) := by
  have hinner : (above ++ [Node.value (.text t)]).filter Node.encloses =
      above.filter Node.encloses ++ [.value (.text t)] := by
    rw [List.filter_append]
    rfl
  have hmore (more : List (Expression × Segment)) :
      (more.flatMap fun part => [TextPart.expression part.1, .segment part.2]).flatMap
        (fun part => part.node.sites (above ++ [.value (.text t)])) =
      more.map fun part => (above.filter Node.encloses ++ [.value (.text t)], part.1) := by
    induction more with
    | nil => rfl
    | cons part more ih =>
      have hsegment : (Node.segment part.2).sites (above ++ [.value (.text t)]) = [] :=
        Node.sites_leaf _ rfl rfl
      rw [List.flatMap_cons, List.flatMap_append, ih, List.map_cons, ← hinner]
      simp [TextPart.node, Node.sites_expression, hsegment]
  rw [Node.sites_eq above rfl, Node.children, List.flatMap_map, parts, List.flatMap_cons, hmore,
    TextPart.node, Node.sites_leaf _ rfl rfl, List.nil_append]

/-! ### Asking a host -/

/-- Ask a host about expressions, one after the other. -/
def Processor.askAll (host : Processor τ) :
    List (List Node × Expression) → τ → List Expression × τ
  | [], state => ([], state)
  | (parents, e) :: sites, state =>
    let (e, state) := e.process host parents state
    let (answers, state) := host.askAll sites state
    (e :: answers, state)

/-- A host that also writes down what it is asked. -/
def Processor.logging (host : Processor τ) : Processor (τ × List (List Node × Expression)) :=
  fun (state, log) parents e =>
    let (text, state) := host state parents e
    (text, state, log ++ [(parents, e)])

theorem Processor.askAll_append (host : Processor τ) (sites others : List (List Node × Expression))
    (state : τ) : host.askAll (sites ++ others) state =
      ((host.askAll sites state).1 ++ (host.askAll others (host.askAll sites state).2).1,
        (host.askAll others (host.askAll sites state).2).2) := by
  induction sites generalizing state with
  | nil => rfl
  | cons site sites ih => simp [askAll, ih]

theorem Processor.askAll_logging (host : Processor τ) (sites log : List (List Node × Expression))
    (state : τ) : (host.logging.askAll sites (state, log)).2 =
      ((host.askAll sites state).2, log ++ sites) := by
  induction sites generalizing state log with
  | nil => simp [askAll]
  | cons site sites ih => simp [askAll, logging, Expression.process, ih]

/-- What a host was asked on the way from `state` to `result`: what came of the expressions are its
answers about `sites`, and it is left in the state after the last of them. -/
def Processor.Asked (host : Processor τ) (sites : List (List Node × Expression)) (state : τ)
    (result : List Expression × τ) : Prop := host.askAll sites state = result

section Asked

variable {host : Processor τ} {above : List Node}

theorem Processor.Asked.append {sites others : List (List Node × Expression)} {state middle : τ}
    {xs ys : List Expression} {last : τ} (h : host.Asked sites state (xs, middle))
    (k : host.Asked others middle (ys, last)) :
    host.Asked (sites ++ others) state (xs ++ ys, last) := by
  rw [Asked, askAll_append, h, k]

theorem processParts_asked (parents : List Node) (more : List (Expression × Segment)) (state : τ) :
    host.Asked (more.map fun part => (parents, part.1)) state
      ((processParts host parents more state).1.map Prod.fst,
        (processParts host parents more state).2) := by
  induction more generalizing state with
  | nil => rfl
  | cons part more ih =>
    have hone : host.Asked [(parents, part.1)] state
        ([(part.1.process host parents state).1], (part.1.process host parents state).2) := rfl
    exact hone.append (ih _)

variable (host above)

theorem Text.process_asked (t : Text) (state : τ) :
    host.Asked ((Node.value (.text t)).sites above) state
      ((t.process host (above.filter Node.encloses) state).1.more.map Prod.fst,
        (t.process host (above.filter Node.encloses) state).2) := by
  rw [sites_node]
  exact processParts_asked _ _ _

theorem Key.process_asked (key : Key) (state : τ) :
    host.Asked (key.node.sites above) state
      ((key.process host (above.filter Node.encloses) state).1.expressions,
        (key.process host (above.filter Node.encloses) state).2) := by
  cases key with
  | text t =>
    have ht := t.process_asked host above state
    simp only [process, expressions_text]
    exact ht
  | expression e =>
    rw [node, Node.sites_expression]
    rfl
  | identifier i =>
    rw [node, Node.sites_leaf above rfl rfl]
    rfl

variable {host}

/-- A value whose expressions a host is asked about on the way through it, whatever is above it. -/
def Value.Asks (host : Processor τ) (value : Value) : Prop := ∀ (above : List Node) (state : τ),
  host.Asked ((Node.value value).sites above) state
    ((value.process host (above.filter Node.encloses) state).1.expressions,
      (value.process host (above.filter Node.encloses) state).2)

theorem processSlots_asked {slots : List (Slot Value)}
    (h : ∀ slot ∈ slots, ∀ v, slot.value = some v → v.Asks host) (state : τ) :
    host.Asked ((slotValues slots).flatMap fun v => (Node.value v).sites above) state
      ((slotValues (processSlots host (above.filter Node.encloses) slots state).1).flatMap
          Value.expressions,
        (processSlots host (above.filter Node.encloses) slots state).2) := by
  induction slots generalizing state with
  | nil => rfl
  | cons slot slots ih =>
    obtain ⟨value, start, comma⟩ := slot
    have hrest := ih fun other hother => h other (List.mem_cons_of_mem _ hother)
    cases value with
    | none => simpa [processSlots, slotValues] using hrest state
    | some value =>
      have hvalue := h _ List.mem_cons_self value rfl above state
      simpa [processSlots, slotValues] using hvalue.append (hrest _)

/-- A property is not shown to a host, but what is above it is. -/
theorem Property.sites_node (above : List Node) (p : Property Value) :
    (Node.property p).sites above = p.key.node.sites (above ++ [.property p]) ++
      p.value.toList.flatMap fun v => (Node.value v).sites (above ++ [.property p]) := by
  rw [Node.sites_eq above rfl, Node.children, List.flatMap_cons]
  cases p.value <;> rfl

theorem processProperties_asked {properties : List (Property Value)}
    (h : ∀ p ∈ properties, ∀ v, p.value = some v → v.Asks host) (state : τ) :
    host.Asked (properties.flatMap fun p => (Node.property p).sites above) state
      ((processProperties host (above.filter Node.encloses) properties state).1.flatMap
          Property.expressions,
        (processProperties host (above.filter Node.encloses) properties state).2) := by
  induction properties generalizing state with
  | nil => rfl
  | cons p properties ih =>
    have hrest := ih fun other hother => h other (List.mem_cons_of_mem _ hother)
    have habove : (above ++ [Node.property p]).filter Node.encloses =
        above.filter Node.encloses := by
      rw [List.filter_append]
      exact List.append_nil _
    have hkey := p.key.process_asked host (above ++ [.property p]) state
    rw [habove] at hkey
    rw [List.flatMap_cons, Property.sites_node]
    obtain ⟨key, colon, value, comma⟩ := p
    cases value with
    | none =>
      simpa [processProperties, Property.expressions] using hkey.append (hrest _)
    | some value =>
      have hvalue := h _ List.mem_cons_self value rfl
        (above ++ [.property ⟨key, colon, some value, comma⟩])
        (key.process host (above.filter Node.encloses) state).2
      rw [habove] at hvalue
      simpa [processProperties, Property.expressions] using
        (hkey.append hvalue).append (hrest _)

theorem Value.asks (host : Processor τ) (value : Value) : value.Asks host := by
  induction value using Value.induction with
  | scalar s =>
    intro above state
    rw [process, expressions_scalar, Node.sites_leaf above rfl rfl]
    rfl
  | expression e =>
    intro above state
    rw [process, expressions_expression, Node.sites_expression]
    rfl
  | text t =>
    intro above state
    rw [process, expressions_text]
    exact t.process_asked host above state
  | array span slots ih =>
    intro above state
    have hslots := processSlots_asked (above ++ [.value (.array span slots)]) ih state
    have hchildren : (Node.value (.array span slots)).children =
        (slotValues slots).map Node.value := by
      simp [Node.children, slotValues, List.map_filterMap]
    rw [process, expressions_array, Node.sites_eq above rfl, hchildren, List.flatMap_map]
    rwa [List.filter_append] at hslots
  | object span properties ih =>
    intro above state
    have hproperties :=
      processProperties_asked (above ++ [.value (.object span properties)]) ih state
    rw [process, expressions_object, Node.sites_eq above rfl, Node.children, List.flatMap_map]
    rwa [List.filter_append] at hproperties

end Asked

/-! ### The rest of the tree -/

/-- An expression without its text. -/
def Expression.withoutText (e : Expression) : Expression := { e with text := "" }

section Kept

variable (host : Processor τ) (parents : List Node)

theorem processParts_kept (more : List (Expression × Segment)) (state : τ) :
    mapMore Expression.withoutText (processParts host parents more state).1 =
      mapMore Expression.withoutText more := by
  induction more generalizing state with
  | nil => rfl
  | cons part more ih => simpa [mapMore, processParts] using ⟨rfl, ih _⟩

theorem Text.process_kept (t : Text) (state : τ) :
    (t.process host parents state).1.mapExpressions Expression.withoutText =
      t.mapExpressions Expression.withoutText := by
  simp only [mapExpressions, process, processParts_kept]

theorem Key.process_kept (key : Key) (state : τ) :
    (key.process host parents state).1.mapExpressions Expression.withoutText =
      key.mapExpressions Expression.withoutText := by
  cases key with
  | text t => simp only [process, mapExpressions, Text.process_kept]
  | expression | identifier => rfl

/-- A value of which a host changes nothing but the texts of its expressions. -/
def Value.Kept (value : Value) : Prop := ∀ (parents : List Node) (state : τ),
  (value.process host parents state).1.mapExpressions Expression.withoutText =
    value.mapExpressions Expression.withoutText

variable {host}

theorem processSlots_kept {slots : List (Slot Value)}
    (h : ∀ slot ∈ slots, ∀ v, slot.value = some v → v.Kept host) (state : τ) :
    (processSlots host parents slots state).1.map (Slot.mapExpressions Expression.withoutText) =
      slots.map (Slot.mapExpressions Expression.withoutText) := by
  induction slots generalizing state with
  | nil => rfl
  | cons slot slots ih =>
    obtain ⟨value, start, comma⟩ := slot
    have hrest := ih fun other hother => h other (List.mem_cons_of_mem _ hother)
    cases value with
    | none => simp [processSlots, hrest]
    | some value =>
      have hvalue := h _ List.mem_cons_self value rfl parents state
      simp [processSlots, Slot.mapExpressions, hvalue, hrest]

theorem processProperties_kept {properties : List (Property Value)}
    (h : ∀ p ∈ properties, ∀ v, p.value = some v → v.Kept host) (state : τ) :
    (processProperties host parents properties state).1.map
        (Property.mapExpressions Expression.withoutText) =
      properties.map (Property.mapExpressions Expression.withoutText) := by
  induction properties generalizing state with
  | nil => rfl
  | cons p properties ih =>
    obtain ⟨key, colon, value, comma⟩ := p
    have hrest := ih fun other hother => h other (List.mem_cons_of_mem _ hother)
    cases value with
    | none => simp [processProperties, Property.mapExpressions, Key.process_kept, hrest]
    | some value =>
      have hvalue := h _ List.mem_cons_self value rfl parents
        (key.process host parents state).2
      simp [processProperties, Property.mapExpressions, Key.process_kept, hvalue, hrest]

theorem Value.kept (value : Value) : value.Kept host := by
  induction value using Value.induction with
  | scalar s =>
    intro parents state
    rw [process]
  | expression e =>
    intro parents state
    simp [process, mapExpressions, Expression.process, Expression.withoutText]
  | text t =>
    intro parents state
    simp only [process, mapExpressions, Text.process_kept]
  | array span slots ih =>
    intro parents state
    simp only [process, mapExpressions, mapSlots_eq, processSlots_kept _ ih]
  | object span properties ih =>
    intro parents state
    simp only [process, mapExpressions, mapProperties_eq, processProperties_kept _ ih]

end Kept

/-! ### Code -/

/-- The host and the code.  Whatever the tree, the options and the host, a generator asks the host
about the expressions of the tree once each, in document order, and shows it the arrays, objects and
strings around them.  Its code is the code of a tree that has the answers as the texts of its
expressions and is the same otherwise. -/
theorem generate_asks (options : RenderOptions) (host : Processor τ) (value : Value) (state : τ) :
    value.sites.map Prod.snd = value.expressions ∧
    (value.generate options host.logging [] "" (state, [])).2.2 = value.sites ∧
    ∃ made : Value,
      value.process host [] state = (made, (host.askAll value.sites state).2) ∧
      value.generate options host [] "" state =
        (made.render options, (host.askAll value.sites state).2) ∧
      made.expressions = (host.askAll value.sites state).1 ∧
      made.mapExpressions Expression.withoutText =
        value.mapExpressions Expression.withoutText := by
  have hasked : host.askAll value.sites state = _ := value.asks host [] state
  have hlogged : host.logging.askAll value.sites (state, []) = _ :=
    value.asks host.logging [] (state, [])
  refine ⟨Node.sites_expressions _ _, ?_, (value.process host [] state).1, ?_, ?_, ?_,
    value.kept [] state⟩
  · have hlog := host.askAll_logging value.sites [] state
    rw [hlogged] at hlog
    rw [Value.generate_render]
    exact congrArg Prod.snd hlog
  · rw [hasked]
    rfl
  · rw [hasked, Value.generate_render]
    rfl
  · rw [hasked]
    rfl

end DataTemplate
