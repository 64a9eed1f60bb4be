import StructuralSearch.Proofs.Template.Binding
import StructuralSearch.Proofs.Template.Filling

/-!
# Matches are instances of their template

The pattern that a template is converted to has one slot for each child, and a metavariable in a
slot binds the siblings that it matches. So what one slot binds accounts for the siblings that the
slot takes, and the parts of a template together account for all children of a node.
-/
namespace StructuralSearch

namespace Template

/-- Metavariables that are none of those bound before, no two of one name and no wildcard. -/
structure Fresh (bound : List String) (found : List (String × MetavariableKind)) : Prop where
  nodup : (found.map (·.1)).Nodup
  named : wildcard ∉ found.map (·.1)
  unbound : ∀ name ∈ found.map (·.1), name ∉ bound

theorem Fresh.left {bound : List String} {found found' : List (String × MetavariableKind)}
    (h : Fresh bound (found ++ found')) : Fresh bound found := by
  obtain ⟨hnodup, hnamed, hunbound⟩ := h
  rw [List.map_append] at hnodup hnamed hunbound
  exact ⟨(List.nodup_append.1 hnodup).1, fun hw => hnamed (List.mem_append_left _ hw),
    fun name hname => hunbound name (List.mem_append_left _ hname)⟩

theorem Fresh.disjoint {bound : List String} {found found' : List (String × MetavariableKind)}
    (h : Fresh bound (found ++ found')) :
    ∀ name ∈ found.map (·.1), name ∉ found'.map (·.1) := by
  have hnodup := h.nodup
  rw [List.map_append] at hnodup
  intro name hname hname'
  exact (List.nodup_append.1 hnodup).2.2 name hname name hname' rfl

/-- What comes later is fresh after the names found first. -/
theorem Fresh.right {bound bound' : List String} {found found' : List (String × MetavariableKind)}
    (h : Fresh bound (found ++ found'))
    (hbound : ∀ name ∈ bound', name ∈ bound ∨ name ∈ found.map (·.1)) : Fresh bound' found' := by
  have hdisjoint := h.disjoint
  obtain ⟨hnodup, hnamed, hunbound⟩ := h
  rw [List.map_append] at hnodup hnamed hunbound
  refine ⟨(List.nodup_append.1 hnodup).2.1, fun hw => hnamed (List.mem_append_right _ hw), ?_⟩
  intro name hname hname'
  rcases hbound name hname' with hold | hfound
  · exact hunbound name (List.mem_append_right _ hname) hold
  · exact hdisjoint name hfound hname

theorem mem_bound_metavariablePattern {bound : List String} {name other : String}
    {kind : MetavariableKind} {slot : Role}
    (h : other ∈ (metavariablePattern bound name kind slot).2) : other ∈ bound ∨ other = name := by
  unfold metavariablePattern at h
  cases kind with
  | single =>
    dsimp only at h
    split at h
    · exact .inl h
    · split at h
      · exact .inl h
      · exact (List.mem_cons.1 h).symm
  | multiple =>
    dsimp only at h
    split at h
    · exact .inl h
    · exact (List.mem_cons.1 h).symm

/-- Conversion binds no name that it has not read. -/
theorem mem_bound_toPattern :
    (∀ (bound : List String) (n : SourceNode) (slot : Role), ∀ name ∈ (toPattern bound n slot).2,
      name ∈ bound ∨ name ∈ (decoded n).map (·.1)) ∧
    (∀ (bound : List String) (cs : List (Child SourceNode)), ∀ name ∈ (toSlots bound cs).2,
      name ∈ bound ∨ name ∈ (cs.flatMap fun c => decoded c.node).map (·.1)) := by
  apply toPattern.mutual_induct
  · intro bound n slot name kind hfound other hother
    rw [toPattern_of_found hfound] at hother
    rw [decoded_of_found hfound, List.map_singleton, List.mem_singleton]
    exact mem_bound_metavariablePattern hother
  · intro bound n slot hliteral slots bound' hslots ih other hother
    rw [toPattern_of_literal hliteral] at hother
    rw [decoded_of_literal hliteral]
    exact ih other hother
  · intro bound other hother
    rw [toSlots_nil] at hother
    exact .inl hother
  · intro bound c rest p bound' hp slots bound'' hslots ih ihrest other hother
    rw [toSlots_cons, hp] at hother
    rw [hp] at ih
    rw [List.flatMap_cons, List.map_append, List.mem_append, ← or_assoc]
    rcases ihrest other hother with hbound | hrest
    · exact .inl (ih other hbound)
    · exact .inr hrest

open SourceNode (target)

theorem mem_outcomes_metavariablePattern {bound : List String} {name : String}
    {kind : MetavariableKind} {slot slot' : Role} {siblings : Array (Child SourceNode)} {i : Nat}
    {log : Log SourceNode} {o : Outcome SourceNode} (hnamed : name ≠ wildcard)
    (hunbound : name ∉ bound)
    (h : o ∈ Pattern.outcomes target (metavariablePattern bound name kind slot).1 slot' siblings i
      log) :
    o.log = log.addRun name ((between siblings i o.index).map (·.node)) ∧
      (kind = .single → ∃ child, between siblings i o.index = [child]) := by
  cases kind with
  | single =>
    have hany := mem_outcomes_singlePattern h
    rw [singlePattern, if_neg hnamed, if_neg (by simpa using hunbound)] at hany
    obtain ⟨child, hchild, rfl⟩ := List.mem_map.1 hany
    have hbetween := between_succ (getElem?_of_fittingAt? (Option.mem_toList.1 hchild))
    refine ⟨?_, fun _ => ⟨child, hbetween⟩⟩
    rw [hbetween]
    rfl
  | multiple =>
    rw [metavariablePattern, if_neg hnamed] at h
    obtain ⟨inner, hinner, rfl⟩ := List.mem_map.1 h
    refine ⟨?_, fun hkind => by cases hkind⟩
    rw [← log_of_mem_outcomes_star_any hinner]

/-- On every way from one place among siblings to another, the parts account for the nodes
between. -/
def AccountsFor (parts : List SourceNode)
    (outcomes : Array (Child SourceNode) → Nat → Log SourceNode → List (Outcome SourceNode)) :
    Prop :=
  ∀ (siblings : Array (Child SourceNode)) (i : Nat) (log : Log SourceNode),
    ∀ o ∈ outcomes siblings i log, ∃ added, o.log.toList = log.toList ++ added ∧
      Accounts parts added ((between siblings i o.index).map (·.node))

namespace AccountsFor

theorem metavariable {part : SourceNode} {name : String} {kind : MetavariableKind}
    {bound : List String} {slot slot' : Role} (hfound : part.metavariable? = some (name, kind))
    (hfresh : Fresh bound [(name, kind)]) :
    AccountsFor [part]
      (Pattern.outcomes target (metavariablePattern bound name kind slot).1 slot') := by
  intro siblings i log o ho
  have hnamed : name ≠ wildcard := fun he => hfresh.named (he ▸ List.mem_singleton_self name)
  have hunbound : name ∉ bound := hfresh.unbound name (List.mem_singleton_self name)
  obtain ⟨hlog, hsingle⟩ := mem_outcomes_metavariablePattern hnamed hunbound ho
  refine ⟨_, ?_, Accounts.of_found hfound ?_⟩
  · rw [hlog, Log.toList_addRun]
  · intro hkind
    obtain ⟨child, hchild⟩ := hsingle hkind
    exact ⟨child.node, by rw [hchild]; rfl⟩

theorem literal {part : SourceNode} {slots : List (Role × Pattern)} {slot : Role}
    (hliteral : part.metavariable? = none) (hleaf : part.children = [] → part.ownText?.isSome)
    (h : AccountsFor (part.children.map (·.node))
      (Pattern.outcomesInTurn target slots)) :
    AccountsFor [part]
      (Pattern.outcomes target (.literal part.kind part.ownText? slots) slot) := by
  intro siblings i log o ho
  obtain ⟨child, hchild, ho⟩ := List.mem_flatMap.1 ho
  obtain ⟨inner, hinner, rfl⟩ := List.mem_map.1 ho
  obtain ⟨hfits, hchild⟩ := List.mem_filter.1 hchild
  obtain ⟨hkind, htext⟩ := Bool.and_eq_true_iff.1 hchild
  obtain ⟨hinner, hend⟩ := List.mem_filter.1 hinner
  have hget := getElem?_of_fittingAt? (Option.mem_toList.1 hfits)
  obtain ⟨added, hadded, haccounts⟩ := h _ 0 log inner hinner
  refine ⟨added, hadded, ?_⟩
  rw [between_succ hget]
  -- The slots leave no child over, so their parts account for all children.
  rw [beq_iff_eq.1 hend, between_all] at haccounts
  refine Accounts.of_literal hliteral (beq_iff_eq.1 hkind) ?_ hleaf haccounts
  intro text hown
  rw [hown] at htext
  exact beq_iff_eq.1 htext

theorem nil : AccountsFor [] (Pattern.outcomesInTurn target []) := by
  intro siblings i log o ho
  obtain rfl := List.mem_singleton.1 ho
  refine ⟨[], (List.append_nil _).symm, ?_⟩
  rw [between_self]
  exact .empty

theorem cons {part : SourceNode} {parts : List SourceNode} {slot : Role} {p : Pattern}
    {slots : List (Role × Pattern)}
    (h : AccountsFor [part] (Pattern.outcomes target p slot))
    (hrest : AccountsFor parts (Pattern.outcomesInTurn target slots))
    (hdisjoint : ∀ name ∈ (decoded part).map (·.1), name ∉ (parts.flatMap decoded).map (·.1)) :
    AccountsFor (part :: parts)
      (Pattern.outcomesInTurn target ((slot, p) :: slots)) := by
  intro siblings i log o ho
  obtain ⟨first, hfirst, ho⟩ := List.mem_flatMap.1 ho
  obtain ⟨added, hadded, haccounts⟩ := h siblings i log first hfirst
  obtain ⟨added', hadded', haccounts'⟩ := hrest siblings first.index first.log o ho
  have hreach := Pattern.inReach_outcomes target p slot siblings i log first hfirst
  have hreach' := Pattern.inReach_outcomesInTurn target slots siblings first.index first.log o ho
  refine ⟨added ++ added', ?_, ?_⟩
  · rw [hadded', hadded, List.append_assoc]
  · rw [← between_append hreach.1 hreach'.1, List.map_append]
    refine haccounts.append haccounts' ?_
    rwa [List.flatMap_singleton]

end AccountsFor

/-- A template accounts for whatever the pattern that it is converted to matches. -/
theorem accountsFor_toPattern {template : SourceNode}
    (hleaves : ∀ n ∈ template.inView, n.children = [] → n.ownText?.isSome) :
    (∀ (bound : List String) (n : SourceNode) (slot : Role), n ∈ template.inView →
      Fresh bound (decoded n) → ∀ slot',
        AccountsFor [n] (Pattern.outcomes target (toPattern bound n slot).1 slot')) ∧
    (∀ (bound : List String) (cs : List (Child SourceNode)),
      (∀ c ∈ cs, c.node ∈ template.inView) → Fresh bound (cs.flatMap fun c => decoded c.node) →
        AccountsFor (cs.map (·.node))
          (Pattern.outcomesInTurn target (toSlots bound cs).1)) := by
  apply toPattern.mutual_induct
  · intro bound n slot name kind hfound _ hfresh slot'
    rw [decoded_of_found hfound] at hfresh
    rw [toPattern_of_found hfound]
    exact .metavariable hfound hfresh
  · intro bound n slot hliteral slots bound' hslots ih hn hfresh slot'
    rw [decoded_of_literal hliteral] at hfresh
    rw [toPattern_of_literal hliteral]
    have hchildren : ∀ c ∈ n.children, c.node ∈ template.inView :=
      fun c hc => SourceNode.mem_inView_of_mem_children hn hc
    exact .literal hliteral (hleaves n hn) (ih hchildren hfresh)
  · intro bound _ _
    rw [toSlots_nil]
    exact .nil
  · intro bound c rest p bound' hp slots bound'' hslots ih ihrest hcs hfresh
    rw [List.flatMap_cons] at hfresh
    obtain ⟨hc, hrest⟩ := List.forall_mem_cons.1 hcs
    have hbound := mem_bound_toPattern.1 bound c.node c.role
    rw [hp] at ih hbound
    rw [toSlots_cons, hp]
    refine .cons (ih hc hfresh.left c.role) (ihrest hrest (hfresh.right hbound)) ?_
    rw [List.flatMap_map]
    exact hfresh.disjoint

/-! ## A template for functions -/

/-- A node that is no comment and not in error. -/
def sound (kind : String) (named : Bool) (start stop : Nat) (field : Option String)
    (children : List ParseTree) : ParseTree :=
  .node ⟨kind, named, false, false, false, ⟨start, stop⟩, field⟩ children

/-- A function with one run for its parameters and one for its body. -/
def functionTemplate : SourceNode where
  source := "def __HEDDLE_METAVAR_NAME__(__HEDDLE_METAVARS_ARGS__):\n    __HEDDLE_METAVARS_BODY__"
  trail := []
  tree := sound "function_definition" true 0 83 none
    [sound "def" false 0 3 none [],
      sound "identifier" true 4 27 (some "name") [],
      sound "parameters" true 27 53 (some "parameters")
        [sound "(" false 27 28 none [], sound "identifier" true 28 52 none [],
          sound ")" false 52 53 none []],
      sound ":" false 53 54 none [],
      sound "block" true 59 83 (some "body")
        [sound "expression_statement" true 59 83 none [sound "identifier" true 59 83 none []]]]

/-- A function whose body has not even children. -/
def bareFunction : SourceNode where
  source := "def f():\nreturn 1\n"
  trail := []
  tree := sound "function_definition" true 0 8 none
    [sound "def" false 0 3 none [],
      sound "identifier" true 4 5 (some "name") [],
      sound "parameters" true 5 7 (some "parameters")
        [sound "(" false 5 6 none [], sound ")" false 6 7 none []],
      sound ":" false 7 8 none [],
      sound "block" true 8 8 (some "body") []]

/-- A function with a parameter and a statement. -/
def plainFunction : SourceNode where
  source := "def f(a): g"
  trail := []
  tree := sound "function_definition" true 0 11 none
    [sound "def" false 0 3 none [],
      sound "identifier" true 4 5 (some "name") [],
      sound "parameters" true 5 8 (some "parameters")
        [sound "(" false 5 6 none [], sound "identifier" true 6 7 none [],
          sound ")" false 7 8 none []],
      sound ":" false 8 9 none [],
      sound "block" true 10 11 (some "body")
        [sound "expression_statement" true 10 11 none [sound "identifier" true 10 11 none []]]]

/-- The node that a path of indexes leads to. -/
def nodeAt (n : SourceNode) : List Nat → SourceNode
  | [] => n
  | i :: path => nodeAt ((n.children.map (·.node)).getD i n) path

def functionPattern : CheckedPattern where
  elements :=
    [.literal "function_definition" (nodeAt functionTemplate []).ownText?
      [(.child, .literal "def" (nodeAt functionTemplate [0]).ownText? []),
        (⟨"name", none⟩, .any (some "NAME")),
        (⟨"parameters", none⟩, .literal "parameters" (nodeAt functionTemplate [2]).ownText?
          [(.child, .literal "(" (nodeAt functionTemplate [2, 0]).ownText? []),
            (.child, .capture "ARGS" (.star (.any none))),
            (.child, .literal ")" (nodeAt functionTemplate [2, 2]).ownText? [])]),
        (.child, .literal ":" (nodeAt functionTemplate [3]).ownText? []),
        (⟨"body", some .block⟩, .literal "block" (nodeAt functionTemplate [4]).ownText?
          [(Source.statement, .capture "BODY" (.star (.any none)))])]]
  captures := ["NAME", "ARGS", "BODY"]
  checked := rfl

theorem toPattern_functionTemplate :
    [(toPattern [] functionTemplate .root).1] = functionPattern.elements := by
  have hliteral : ∀ path ∈ [[], [0], [2], [2, 0], [2, 2], [3], [4]],
      SourceNode.metavariable? (nodeAt functionTemplate path) = none := by decide +kernel
  have hname : SourceNode.metavariable? (nodeAt functionTemplate [1]) = some ("NAME", .single) := by
    decide +kernel
  have hargs : SourceNode.metavariable? (nodeAt functionTemplate [2, 1]) =
      some ("ARGS", .multiple) := by decide +kernel
  have hbody : SourceNode.metavariable? (nodeAt functionTemplate [4, 0]) =
      some ("BODY", .multiple) := by decide +kernel
  have hpattern : ∀ path ∈ [[], [0], [2], [2, 0], [2, 2], [3], [4]], ∀ bound slot,
      toPattern bound (nodeAt functionTemplate path) slot =
        (.literal (nodeAt functionTemplate path).kind (nodeAt functionTemplate path).ownText?
          (toSlots bound (nodeAt functionTemplate path).children).1,
        (toSlots bound (nodeAt functionTemplate path).children).2) :=
    fun path hpath bound slot => toPattern_of_literal (hliteral path hpath)
  have hwhole : (nodeAt functionTemplate []).children =
      [⟨.child, nodeAt functionTemplate [0]⟩, ⟨⟨"name", none⟩, nodeAt functionTemplate [1]⟩,
        ⟨⟨"parameters", none⟩, nodeAt functionTemplate [2]⟩, ⟨.child, nodeAt functionTemplate [3]⟩,
        ⟨⟨"body", some .block⟩, nodeAt functionTemplate [4]⟩] := rfl
  have hparameters : (nodeAt functionTemplate [2]).children =
      [⟨.child, nodeAt functionTemplate [2, 0]⟩, ⟨.child, nodeAt functionTemplate [2, 1]⟩,
        ⟨.child, nodeAt functionTemplate [2, 2]⟩] := rfl
  have hblock : (nodeAt functionTemplate [4]).children =
      [⟨Source.statement, nodeAt functionTemplate [4, 0]⟩] := rfl
  have hleaves : ∀ path ∈ [[0], [2, 0], [2, 2], [3]],
      (nodeAt functionTemplate path).children = [] := by
    simp only [List.forall_mem_cons]
    exact ⟨rfl, rfl, rfl, rfl, nofun⟩
  show [(toPattern [] (nodeAt functionTemplate []) .root).1] = _
  simp (disch := decide) only [hpattern, toPattern_of_found hname, toPattern_of_found hargs,
    toPattern_of_found hbody, hwhole, hparameters, hblock, hleaves, toSlots_cons, toSlots_nil]
  rfl

theorem ofPattern_functionTemplate :
    CheckedPattern.ofPattern (toPattern [] functionTemplate .root).1 = .ok functionPattern :=
  CheckedPattern.ofPattern_eq_ok_iff.2 toPattern_functionTemplate.symm

theorem decoded_functionTemplate :
    decoded functionTemplate = [("NAME", .single), ("ARGS", .multiple), ("BODY", .multiple)] := by
  decide +kernel

theorem ownText?_functionTemplate :
    ∀ n ∈ functionTemplate.inView, n.children = [] → n.ownText?.isSome := by
  have hall : functionTemplate.inView.all fun n => !n.children.isEmpty || n.ownText?.isSome := by
    decide +kernel
  intro n hn hnone
  have h := List.all_eq_true.1 hall n hn
  rwa [hnone] at h

/-- What the results bind, without their names in order. -/
theorem map_get_results {α : Type} (p : CheckedPattern) (node : SourceNode)
    (f : (String → List SourceNode) → α) :
    ((p.onNode node).results target).map (fun result => f result.get) =
      ((Pattern.outcomesInTurn target (inNoSlot p.elements) #[⟨.root, node⟩] 0 .empty).filter
        fun o => o.index == 1).map fun o => f o.log.boundTo := by
  rw [CheckedPattern.onNode, CheckedPattern.onSequence, Matcher.results_start, map_get_matchesOf]
  rfl

/-! ## What a match consists of -/

/-- **A match is an instance of its template.** A template with names that differ, no wildcard and a
text in every part that holds nothing is filled with what a match binds. The leaf texts of the node
matched, and no other texts, are those of the filled template, with the text of the childless node
that an emptied part stands over, if it has one, in the place of that part. -/
theorem match_fills_template {template node : SourceNode} {p : CheckedPattern}
    {result : Match SourceNode} (hnames : ((decoded template).map (·.1)).Nodup)
    (hnamed : wildcard ∉ (decoded template).map (·.1))
    (hleaves : ∀ n ∈ template.inView, n.children = [] → n.ownText?.isSome)
    (hp : CheckedPattern.ofPattern (toPattern [] template .root).1 = .ok p)
    (hresult : result ∈ (p.onNode node).results target) :
    (∀ name, (name, .single) ∈ decoded template → ∃ n, result.single? name = some n) ∧
    (∀ texts, FilledOver result.get [template] [node] texts ↔ texts = node.leafTexts) ∧
    ((∀ text, ¬Spare template node result.get text) →
      node.leafTexts = filled result.get template) := by
  rw [CheckedPattern.onNode, CheckedPattern.onSequence, CheckedPattern.ofPattern_eq_ok_iff.1 hp,
    Matcher.results_start] at hresult
  obtain ⟨o, ho, rfl⟩ := List.mem_map.1 hresult
  obtain ⟨ho, hend⟩ := List.mem_filter.1 ho
  obtain ⟨first, hfirst, ho⟩ := List.mem_flatMap.1 ho
  obtain rfl := List.mem_singleton.1 ho
  have hfresh : Fresh [] (decoded template) := ⟨hnames, hnamed, fun _ _ h => nomatch h⟩
  have hmatched := (accountsFor_toPattern hleaves).1 [] template .root template.mem_inView_self
    hfresh .root
  obtain ⟨added, hadded, haccounts⟩ :=
    hmatched [(⟨.root, node⟩ : Child SourceNode)].toArray 0 .empty first hfirst
  have hindex : first.index = [(⟨.root, node⟩ : Child SourceNode)].length := beq_iff_eq.1 hend
  rw [hindex, between_all] at haccounts
  have hbound : (Match.ofLog first.log).get = Binding.nodesOf added := by
    rw [Match.get_ofLog]
    funext name
    rw [Log.boundTo, hadded]
    rfl
  have htexts := haccounts.texts (Match.ofLog first.log).get fun d _ => by rw [hbound]
  simp only [List.map_singleton, List.flatMap_singleton] at htexts
  refine ⟨?_, fun texts => ⟨htexts.unique, fun h => h ▸ htexts⟩, ?_⟩
  · intro name hname
    obtain ⟨n, hn⟩ := haccounts.single name (by rwa [List.flatMap_singleton])
    exact ⟨n, by rw [Match.single?, hbound, hn]⟩
  · intro hnone
    have hfilled := htexts.texts_eq_filled (List.forall_mem_singleton.2 template.mem_inView_self)
      (List.forall_mem_singleton.2 node.mem_inView_self) hnone
    rwa [List.flatMap_singleton] at hfilled

theorem plainFunction_fills_template :
    ∃ result ∈ (functionPattern.onNode plainFunction).results target,
      plainFunction.leafTexts = filled result.get functionTemplate := by
  have hresults := map_get_results functionPattern plainFunction fun bound =>
    filled bound functionTemplate
  have hsome : ["def", "f", "(", "a", ")", ":", "g"] ∈
      ((functionPattern.onNode plainFunction).results target).map fun result =>
        filled result.get functionTemplate := by
    rw [hresults]
    decide +kernel
  obtain ⟨result, hresult, -⟩ := List.mem_map.1 hsome
  -- No leaf of the function is of the kind of a part of the template that has children.
  have hkinds : ∀ n ∈ plainFunction.inView, n.ownText?.isSome → ∀ part ∈ functionTemplate.inView,
      part.children.isEmpty = false → part.kind ≠ n.kind := by decide +kernel
  have hnone : ∀ text, ¬Spare functionTemplate plainFunction result.get text := by
    rintro text ⟨n, hn, htext, part, hpart, hemptied, hkind⟩
    refine hkinds n hn ?_ part hpart ?_ hkind
    · rw [htext]
      rfl
    · exact List.isEmpty_eq_false_iff.2 hemptied.nonempty
  refine ⟨result, hresult, ?_⟩
  refine (match_fills_template ?_ ?_ ownText?_functionTemplate ofPattern_functionTemplate
    hresult).2.2 hnone
  · rw [decoded_functionTemplate]
    decide
  · rw [decoded_functionTemplate]
    decide

/-- The leaf texts of a match need not be those of the filled template: a body without children has
a text, the empty one, which no run stands for. -/
theorem leafTexts_ne_filled :
    ¬∀ (template node : SourceNode) (p : CheckedPattern) (result : Match SourceNode),
      ((decoded template).map (·.1)).Nodup → wildcard ∉ (decoded template).map (·.1) →
      (∀ n ∈ template.inView, n.children = [] → n.ownText?.isSome) →
      CheckedPattern.ofPattern (toPattern [] template .root).1 = .ok p →
      result ∈ (p.onNode node).results target →
      node.leafTexts = filled result.get template := by
  intro h
  have hresults := map_get_results functionPattern bareFunction fun bound =>
    filled bound functionTemplate
  have hsome : ["def", "f", "(", ")", ":"] ∈
      ((functionPattern.onNode bareFunction).results target).map fun result =>
        filled result.get functionTemplate := by
    rw [hresults]
    decide +kernel
  obtain ⟨result, hresult, hfilled⟩ := List.mem_map.1 hsome
  have htexts := h functionTemplate bareFunction functionPattern result
    (by rw [decoded_functionTemplate]; decide) (by rw [decoded_functionTemplate]; decide)
    ownText?_functionTemplate ofPattern_functionTemplate hresult
  rw [hfilled] at htexts
  exact absurd htexts (by decide +kernel)

end Template
end StructuralSearch
