import StructuralSearch.Proofs.Template.Binding

/-!
# Templates match their own code

The pattern of a template matches the node that it was made from, when the places where a name
recurs hold the same. At each of its places a metavariable stands for the very node there, so a
later place is compared with the nodes at the earlier ones. Places of one name can differ in the
kinds of their nodes, as those of an expression and of a type do; such a template matches nothing
that is parsed like its own code.
-/
namespace StructuralSearch

namespace Template

open SourceNode (target)

/-- A place of a metavariable in the tree of a template. -/
structure Place where
  name : String
  kind : MetavariableKind
  node : SourceNode

/-- The places of metavariables, in their order. -/
def places (n : SourceNode) : List Place :=
  match n.metavariable? with
  | some (name, kind) => [⟨name, kind, n⟩]
  | none => n.children.attach.flatMap fun c => places c.1.node
termination_by n.tree.size
decreasing_by exact SourceNode.size_lt_of_mem_children c.2

theorem places_of_found {n : SourceNode} {name : String} {kind : MetavariableKind}
    (h : n.metavariable? = some (name, kind)) : places n = [⟨name, kind, n⟩] := by
  rw [places, h]

theorem places_of_literal {n : SourceNode} (h : n.metavariable? = none) :
    places n = n.children.flatMap fun c => places c.node := by
  rw [places, h]
  exact flatMap_attach n.children fun c => places c.node

/-- The later place of a single node can stand beside the earlier place: they are of different
names, or their nodes have the same content. -/
def Place.Agrees (earlier later : Place) : Prop :=
  later.kind = .single → earlier.name = later.name → earlier.name ≠ wildcard →
    earlier.node.sameContent later.node

instance (earlier later : Place) : Decidable (earlier.Agrees later) :=
  inferInstanceAs (Decidable (_ → _))

/-- Every later place of a name holds what the earlier ones hold. -/
def Agree (ps : List Place) : Prop :=
  ps.Pairwise Place.Agrees

instance (ps : List Place) : Decidable (Agree ps) :=
  inferInstanceAs (Decidable (List.Pairwise _ _))

/-- At the places done each name of `bound` has been bound, and the log binds a name to nodes at its
places only. -/
structure Held (done : List Place) (bound : List String) (log : Log SourceNode) : Prop where
  some : ∀ name ∈ bound, log.boundTo name ≠ []
  placed : ∀ name, ∀ n ∈ log.boundTo name, ∃ p ∈ done, p.name = name ∧ p.node = n

namespace Held

variable {done : List Place} {bound : List String} {log : Log SourceNode}

theorem empty : Held [] [] .empty where
  some _ h := nomatch h
  placed _ _ h := nomatch h

theorem skip (h : Held done bound log) (p : Place) : Held (done ++ [p]) bound log where
  some := h.some
  placed name n hn := by
    obtain ⟨q, hq, hplace⟩ := h.placed name n hn
    exact ⟨q, List.mem_append_left _ hq, hplace⟩

theorem bind (h : Held done bound log) (p : Place) :
    Held (done ++ [p]) (p.name :: bound) (log.addRun p.name [p.node]) := by
  constructor
  · intro name hname
    rw [Log.boundTo_addRun]
    rcases List.mem_cons.1 hname with rfl | hname
    · rw [if_pos rfl]
      exact List.append_ne_nil_of_right_ne_nil _ (List.cons_ne_nil _ _)
    · exact List.append_ne_nil_of_left_ne_nil (h.some name hname) _
  · intro name n hn
    rw [Log.boundTo_addRun] at hn
    rcases List.mem_append.1 hn with hn | hn
    · exact (h.skip p).placed name n hn
    · split at hn
      · rename_i hname
        obtain rfl := List.mem_singleton.1 hn
        exact ⟨p, List.mem_append_right _ (List.mem_singleton_self p), hname, rfl⟩
      · cases hn

end Held

/-- From the place of a node in its slot, a list of outcomes leads past the node, and the places in
it are held from then on. -/
def Takes (done ps : List Place) (bound' : List String) (index : Nat)
    (outcomes : List (Outcome SourceNode)) : Prop :=
  ∃ log, ⟨index, log⟩ ∈ outcomes ∧ Held (done ++ ps) bound' log

section

variable {siblings : Array (Child SourceNode)} {i : Nat} {slot : Role} {n : SourceNode}
  {done : List Place} {bound : List String} {log : Log SourceNode}

theorem fittingAt?_self (h : siblings[i]? = some ⟨slot, n⟩) :
    fittingAt? siblings i slot = some ⟨slot, n⟩ := by
  have hsame : (slot == slot) = true := Role.beq_iff.2 rfl
  rw [fittingAt?, h]
  exact Option.filter_some_pos (by rw [hsame, Bool.or_true])

theorem takes_singlePattern (hget : siblings[i]? = some ⟨slot, n⟩) (hheld : Held done bound log)
    {name : String} (hagrees : ∀ p ∈ done, p.Agrees ⟨name, .single, n⟩) :
    Takes done [⟨name, .single, n⟩] (singleBound bound name) (i + 1)
      (Pattern.outcomes target (singlePattern bound name) slot siblings i log) := by
  have hfits := Option.mem_toList.2 (fittingAt?_self hget)
  unfold singlePattern singleBound
  split
  · exact ⟨log, List.mem_map_of_mem hfits, hheld.skip _⟩
  · rename_i hnamed
    split
    · rename_i hbound
      refine ⟨log, List.mem_map_of_mem (List.mem_filter.2 ⟨hfits, ?_⟩), hheld.skip _⟩
      rw [Bool.and_eq_true, Bool.not_eq_true', List.isEmpty_eq_false_iff, List.all_eq_true]
      refine ⟨hheld.some name (by simpa using hbound), ?_⟩
      intro m hm
      obtain ⟨p, hp, hname, rfl⟩ := hheld.placed name m hm
      exact hagrees p hp rfl hname (hname ▸ hnamed)
    · exact ⟨_, List.mem_map_of_mem hfits, hheld.bind ⟨name, .single, n⟩⟩

/-- A run can take one node. -/
theorem mem_outcomes_star_any (hget : siblings[i]? = some ⟨slot, n⟩) :
    ⟨i + 1, log⟩ ∈ Pattern.outcomes target (.star (.any none)) slot siblings i log := by
  have hfits := fittingAt?_self hget
  refine mem_repeatOutcomes.2 (.inr ⟨.inr rfl, ⟨i + 1, log⟩, ?_, ?_⟩)
  · exact List.mem_map_of_mem (Option.mem_toList.2 hfits)
  · have hlt := lt_size_of_fittingAt? hfits
    rw [if_pos ⟨Nat.lt_succ_self i, hlt⟩]
    exact mem_repeatOutcomes.2 (.inl ⟨Nat.not_lt_zero _, rfl⟩)

theorem takes_metavariablePattern (hget : siblings[i]? = some ⟨slot, n⟩)
    (hheld : Held done bound log) {name : String} {kind : MetavariableKind}
    (hagrees : ∀ p ∈ done, p.Agrees ⟨name, kind, n⟩) :
    Takes done [⟨name, kind, n⟩] (metavariablePattern bound name kind slot).2 (i + 1)
      (Pattern.outcomes target (metavariablePattern bound name kind slot).1 slot siblings i
        log) := by
  cases kind with
  | single =>
    obtain ⟨log', hmem, hheld'⟩ := takes_singlePattern hget hheld hagrees
    rw [metavariablePattern_single]
    refine ⟨log', ?_, hheld'⟩
    dsimp only
    split
    · rename_i construct hexpects
      refine List.mem_filter.2 ⟨hmem, ?_⟩
      rw [between_succ hget]
      simp [Role.accepts, hexpects]
    · exact hmem
  | multiple =>
    have hrun : ⟨i + 1, log⟩ ∈
        Pattern.outcomes target (.star (.any none)) slot siblings i log :=
      mem_outcomes_star_any hget
    rw [metavariablePattern]
    split
    · exact ⟨log, hrun, hheld.skip _⟩
    · refine ⟨_, List.mem_map_of_mem hrun, ?_⟩
      rw [between_succ hget]
      exact hheld.bind ⟨name, .multiple, n⟩

end

theorem ownText?_all_hasText (n : SourceNode) : n.ownText?.all (target.hasText n) := by
  cases h : n.ownText? with
  | none => rfl
  | some text => exact beq_iff_eq.2 h

/-- What a template is converted to takes the node that it was made from, and its slots take the
children one by one. -/
theorem takes_toPattern :
    (∀ (bound : List String) (n : SourceNode) (slot : Role)
      (siblings : Array (Child SourceNode)) (i : Nat) (log : Log SourceNode) (done : List Place),
      siblings[i]? = some ⟨slot, n⟩ → Held done bound log → Agree (done ++ places n) →
        Takes done (places n) (toPattern bound n slot).2 (i + 1)
          (Pattern.outcomes target (toPattern bound n slot).1 slot siblings i log)) ∧
    (∀ (bound : List String) (cs : List (Child SourceNode)) (siblings : Array (Child SourceNode))
      (i : Nat) (log : Log SourceNode) (done : List Place),
      siblings.toList.drop i = cs → Held done bound log →
      Agree (done ++ cs.flatMap fun c => places c.node) →
        Takes done (cs.flatMap fun c => places c.node) (toSlots bound cs).2 (i + cs.length)
          (Pattern.outcomesInTurn target (toSlots bound cs).1 siblings i log)) := by
  apply toPattern.mutual_induct
  · intro bound n slot name kind hfound siblings i log done hget hheld hagree
    rw [places_of_found hfound] at hagree ⊢
    rw [toPattern_of_found hfound]
    refine takes_metavariablePattern hget hheld ?_
    intro p hp
    exact (List.pairwise_append.1 hagree).2.2 p hp _ (List.mem_singleton_self _)
  · intro bound n slot hliteral slots bound' hslots ih siblings i log done hget hheld hagree
    rw [places_of_literal hliteral] at hagree ⊢
    rw [toPattern_of_literal hliteral]
    obtain ⟨log', hmem, hheld'⟩ := ih n.children.toArray 0 log done rfl hheld hagree
    rw [Nat.zero_add] at hmem
    refine ⟨log', List.mem_flatMap.2 ⟨⟨slot, n⟩, List.mem_filter.2 ⟨?_, ?_⟩, ?_⟩, hheld'⟩
    · exact Option.mem_toList.2 (fittingAt?_self hget)
    · rw [Bool.and_eq_true]
      exact ⟨beq_self_eq_true n.kind, ownText?_all_hasText n⟩
    · exact List.mem_map.2 ⟨_, List.mem_filter.2 ⟨hmem, beq_self_eq_true _⟩, rfl⟩
  · intro bound siblings i log done _ hheld _
    rw [toSlots_nil]
    refine ⟨log, List.mem_singleton_self _, ?_⟩
    rwa [List.flatMap_nil, List.append_nil]
  · intro bound c rest p bound' hp slots bound'' hslots ih ihrest siblings i log done hcs hheld hagree
    rw [toSlots_cons, hp]
    rw [hp] at ih
    rw [List.flatMap_cons] at hagree ⊢
    rw [← List.append_assoc] at hagree
    obtain ⟨hget, hrest⟩ := getElem?_and_drop_of_drop_eq_cons hcs
    obtain ⟨log', hmem, hheld'⟩ :=
      ih siblings i log done hget hheld (List.pairwise_append.1 hagree).1
    obtain ⟨log'', hmem', hheld''⟩ :=
      ihrest siblings (i + 1) log' (done ++ places c.node) hrest hheld' hagree
    refine ⟨log'', List.mem_flatMap.2 ⟨_, hmem, ?_⟩, ?_⟩
    · rwa [List.length_cons, Nat.add_comm rest.length, ← Nat.add_assoc]
    · rwa [← List.append_assoc]

/-! ## Only templates whose places agree -/

theorem sameContent_iff {n m : SourceNode} :
    n.sameContent m ↔ n.kind = m.kind ∧ n.coveredText = m.coveredText := by
  rw [SourceNode.sameContent, Bool.and_eq_true, beq_iff_eq, beq_iff_eq]

/-- Past the places done each of their names is bound, and only to nodes with the content of every
place of the name. So these places agree. -/
structure Settled (done : List Place) (bound : List String) (log : Log SourceNode) : Prop where
  some : ∀ name ∈ bound, log.boundTo name ≠ []
  none : ∀ name, name ∉ bound → log.boundTo name = []
  same : ∀ p ∈ done, p.name ≠ wildcard →
    p.name ∈ bound ∧ ∀ n ∈ log.boundTo p.name, n.sameContent p.node
  agree : Agree done

namespace Settled

variable {done : List Place} {bound : List String} {log : Log SourceNode} {p : Place}

theorem empty : Settled [] [] .empty where
  some _ h := nomatch h
  none _ _ := rfl
  same _ h := nomatch h
  agree := .nil

/-- A place that binds nothing settles when what its name is bound to has its content. -/
theorem skip (h : Settled done bound log) (hsame : p.name ≠ wildcard →
    p.name ∈ bound ∧ ∀ n ∈ log.boundTo p.name, n.sameContent p.node) :
    Settled (done ++ [p]) bound log := by
  refine ⟨h.some, h.none, ?_, ?_⟩
  · intro q hq
    rcases List.mem_append.1 hq with hq | hq
    · exact h.same q hq
    · obtain rfl := List.mem_singleton.1 hq
      exact hsame
  · refine List.pairwise_append.2 ⟨h.agree, List.pairwise_singleton _ _, ?_⟩
    intro q hq other hother _ hname hnamed
    obtain rfl := List.mem_singleton.1 hother
    obtain ⟨hbound, hsameq⟩ := h.same q hq hnamed
    -- Both have the content of a node that the name is bound to.
    obtain ⟨m, hm⟩ := List.exists_mem_of_ne_nil _ (h.some q.name hbound)
    obtain ⟨hkind, htext⟩ := sameContent_iff.1 (hsameq m hm)
    obtain ⟨hkind', htext'⟩ :=
      sameContent_iff.1 ((hsame (hname ▸ hnamed)).2 m (hname ▸ hm))
    exact sameContent_iff.2 ⟨hkind.symm.trans hkind', htext.symm.trans htext'⟩

/-- The first place of a name settles by binding its node. -/
theorem bind (h : Settled done bound log) (hnew : p.name ∉ bound) :
    Settled (done ++ [p]) (p.name :: bound) (log.addRun p.name [p.node]) := by
  have hold : ∀ name ∈ bound, (log.addRun p.name [p.node]).boundTo name = log.boundTo name := by
    intro name hname
    rw [Log.boundTo_addRun, if_neg (fun he : p.name = name => hnew (he ▸ hname)), List.append_nil]
  have hbind : (log.addRun p.name [p.node]).boundTo p.name = [p.node] := by
    rw [Log.boundTo_addRun, if_pos rfl, h.none p.name hnew, List.nil_append]
  constructor
  · intro name hname
    rcases List.mem_cons.1 hname with rfl | hname
    · rw [hbind]
      exact List.cons_ne_nil _ _
    · rw [hold name hname]
      exact h.some name hname
  · intro name hname
    obtain ⟨hne, hname⟩ := not_or.1 (mt List.mem_cons.2 hname)
    rw [Log.boundTo_addRun, if_neg (Ne.symm hne), h.none name hname, List.append_nil]
  · intro q hq hnamed
    rcases List.mem_append.1 hq with hq | hq
    · obtain ⟨hbound, hsame⟩ := h.same q hq hnamed
      exact ⟨List.mem_cons_of_mem _ hbound, by rwa [hold q.name hbound]⟩
    · obtain rfl := List.mem_singleton.1 hq
      refine ⟨List.mem_cons_self, ?_⟩
      rw [hbind]
      exact List.forall_mem_singleton.2 (sameContent_iff.2 ⟨rfl, rfl⟩)
  · refine List.pairwise_append.2 ⟨h.agree, List.pairwise_singleton _ _, ?_⟩
    intro q hq other hother _ hname hnamed
    obtain rfl := List.mem_singleton.1 hother
    exact absurd (hname ▸ (h.same q hq hnamed).1) hnew

end Settled

section

variable {siblings : Array (Child SourceNode)} {i : Nat} {slot slot' : Role} {n : SourceNode}
  {done : List Place} {bound : List String} {log : Log SourceNode} {o : Outcome SourceNode}

theorem eq_of_mem_fittingAt? {child : Child SourceNode} (hget : siblings[i]? = some ⟨slot, n⟩)
    (h : child ∈ (fittingAt? siblings i slot').toList) : child = ⟨slot, n⟩ :=
  Option.some.inj ((getElem?_of_fittingAt? (Option.mem_toList.1 h)).symm.trans hget)

theorem settled_singlePattern (hget : siblings[i]? = some ⟨slot, n⟩) (h : Settled done bound log)
    {name : String}
    (ho : o ∈ Pattern.outcomes target (singlePattern bound name) slot' siblings i log) :
    o.index = i + 1 ∧
      Settled (done ++ [⟨name, .single, n⟩]) (singleBound bound name) o.log := by
  unfold singlePattern at ho
  unfold singleBound
  split at ho
  · rename_i hname
    obtain ⟨child, -, rfl⟩ := List.mem_map.1 ho
    rw [if_pos hname]
    exact ⟨rfl, h.skip fun hnamed => absurd hname hnamed⟩
  · rename_i hnamed
    rw [if_neg hnamed]
    split at ho
    · rename_i hbound
      obtain ⟨child, hchild, rfl⟩ := List.mem_map.1 ho
      obtain ⟨hfits, hsame⟩ := List.mem_filter.1 hchild
      obtain rfl := eq_of_mem_fittingAt? hget hfits
      rw [if_pos hbound]
      refine ⟨rfl, h.skip fun _ => ⟨by simpa using hbound, ?_⟩⟩
      exact List.all_eq_true.1 (Bool.and_eq_true_iff.1 hsame).2
    · rename_i hnew
      obtain ⟨child, hfits, rfl⟩ := List.mem_map.1 ho
      obtain rfl := eq_of_mem_fittingAt? hget hfits
      rw [if_neg hnew]
      exact ⟨rfl, h.bind (p := ⟨name, .single, n⟩) (by simpa using hnew)⟩

end

/-- Without runs every slot takes the one child that it was made from, so the places in it
settle. -/
theorem settled_toPattern :
    (∀ (bound : List String) (n : SourceNode) (slot slot' : Role)
      (siblings : Array (Child SourceNode)) (i : Nat) (log : Log SourceNode) (done : List Place),
      siblings[i]? = some ⟨slot, n⟩ → (∀ p ∈ places n, p.kind = .single) →
      Settled done bound log →
        ∀ o ∈ Pattern.outcomes target (toPattern bound n slot).1 slot' siblings i log,
          o.index = i + 1 ∧ Settled (done ++ places n) (toPattern bound n slot).2 o.log) ∧
    (∀ (bound : List String) (cs : List (Child SourceNode)) (siblings : Array (Child SourceNode))
      (i : Nat) (log : Log SourceNode) (done : List Place),
      siblings.toList.drop i = cs →
      (∀ p ∈ cs.flatMap fun c => places c.node, p.kind = .single) → Settled done bound log →
        ∀ o ∈ Pattern.outcomesInTurn target (toSlots bound cs).1 siblings i log,
          Settled (done ++ cs.flatMap fun c => places c.node) (toSlots bound cs).2 o.log) := by
  apply toPattern.mutual_induct
  · intro bound n slot name kind hfound slot' siblings i log done hget hsingle h o ho
    rw [places_of_found hfound] at hsingle ⊢
    obtain rfl : kind = .single := hsingle _ (List.mem_singleton_self _)
    rw [toPattern_of_found hfound] at ho ⊢
    rw [metavariablePattern_single]
    exact settled_singlePattern hget h (mem_outcomes_singlePattern ho)
  · intro bound n slot hliteral slots bound' hslots ih slot' siblings i log done hget hsingle h o ho
    rw [places_of_literal hliteral] at hsingle ⊢
    rw [toPattern_of_literal hliteral] at ho ⊢
    obtain ⟨child, hchild, ho⟩ := List.mem_flatMap.1 ho
    obtain ⟨inner, hinner, rfl⟩ := List.mem_map.1 ho
    obtain rfl := eq_of_mem_fittingAt? hget (List.mem_filter.1 hchild).1
    exact ⟨rfl, ih _ 0 log done rfl hsingle h inner (List.mem_filter.1 hinner).1⟩
  · intro bound siblings i log done _ _ h o ho
    rw [toSlots_nil] at ho ⊢
    obtain rfl := List.mem_singleton.1 ho
    rwa [List.flatMap_nil, List.append_nil]
  · intro bound c rest p bound' hp slots bound'' hslots ih ihrest siblings i log done hcs hsingle h
      o ho
    rw [toSlots_cons, hp] at ho ⊢
    rw [hp] at ih
    rw [List.flatMap_cons] at hsingle ⊢
    obtain ⟨hfirst, hlater⟩ := List.forall_mem_append.1 hsingle
    obtain ⟨first, hmem, ho⟩ := List.mem_flatMap.1 ho
    obtain ⟨hget, hrest⟩ := getElem?_and_drop_of_drop_eq_cons hcs
    obtain ⟨hindex, h'⟩ := ih c.role siblings i log done hget hfirst h first hmem
    rw [hindex] at ho
    rw [← List.append_assoc]
    exact ihrest siblings (i + 1) first.log (done ++ places c.node) hrest hlater h' o ho

/-- **A template matches its own code when its places agree.** A template that compiles denotes a
node in the parse of its code. When every later place of a name, where a single node stands, has the
content of the earlier ones, its pattern matches that node; without runs it does so only then. -/
theorem matches_denoted {parser : Parser} {language : Language} {source : String} {t : Template}
    (hcompile : compile parser language source = .ok t) :
    ∃ root, denoted? parser language source = some root ∧
      (Agree (places root) → t.pattern.hasMatch target root) ∧
      ((∀ p ∈ places root, p.kind = .single) → t.pattern.hasMatch target root →
        Agree (places root)) := by
  obtain ⟨root, hroot, hpattern, -, -, -⟩ := compile_eq_ok_iff.1 hcompile
  have hget : #[(⟨.root, root⟩ : Child SourceNode)][0]? = some ⟨.root, root⟩ := rfl
  refine ⟨root, hroot, ?_⟩
  rw [CheckedPattern.hasMatch_iff, CheckedPattern.ofPattern_eq_ok_iff.1 hpattern]
  constructor
  · intro hagree
    obtain ⟨log, hmem, -⟩ := takes_toPattern.1 [] root .root _ 0 .empty [] hget .empty hagree
    refine ⟨_, List.mem_map.2 ⟨⟨1, log⟩, List.mem_filter.2 ⟨?_, rfl⟩, rfl⟩⟩
    exact List.mem_flatMap.2 ⟨_, hmem, List.mem_singleton_self _⟩
  · rintro hsingle ⟨found, hfound⟩
    obtain ⟨o, ho, -⟩ := List.mem_map.1 hfound
    obtain ⟨first, hfirst, -⟩ := List.mem_flatMap.1 (List.mem_filter.1 ho).1
    exact (settled_toPattern.1 [] root .root .root _ 0 .empty [] hget hsingle .empty first
      hfirst).2.agree

/-! ## Two places of one name -/

/-- Code with two places of one name around an operator: the kinds of the file, of the node around
the operator and of the node at the second place, and the field of the operator. -/
structure Pair where
  file : String
  kind : String
  operator : String
  second : String
  field : Option String

namespace Pair

def code (p : Pair) : String :=
  placeholder "X" .single ++ " " ++ p.operator ++ " " ++ placeholder "X" .single

def tree (p : Pair) : ParseTree :=
  let stop := 21 + p.operator.utf8ByteSize
  let part kind named start stop field (children : List ParseTree) : ParseTree :=
    .node ⟨kind, named, false, false, false, ⟨start, stop⟩, field⟩ children
  part p.file true 0 (stop + 21) none
    [part "expression_statement" true 0 (stop + 21) none
      [part p.kind true 0 (stop + 21) none
        [part "identifier" true 0 20 none [], part p.operator false 21 stop p.field [],
          part p.second true (stop + 1) (stop + 21) none []]]]

def parser (p : Pair) : Parser :=
  fun _ _ => some ⟨p.tree, false⟩

def statement (p : Pair) : SourceNode :=
  ⟨p.code, [(0, p.tree)], p.tree.children.head!⟩

/-- The node around the operator. -/
def root (p : Pair) : SourceNode :=
  ⟨p.code, (0, p.statement.tree) :: p.statement.trail, p.statement.tree.children.head!⟩

def pattern (p : Pair) (slot : Role) : CheckedPattern where
  elements :=
    [.literal p.kind none
      [(.child, .any (some "X")), (slot, .literal p.operator (some p.operator) []),
        (.child, .backreference "X")]]
  captures := ["X"]
  checked := rfl

theorem denoted?_source {p : Pair} {t : Template}
    (hcode : withPlaceholders t.source = .ok (p.code, t.metavariables))
    (hstatement : p.statement.onlyTerminates) (hroot : ¬p.root.onlyTerminates) :
    denoted? p.parser t.language t.source = some p.root := by
  rw [denoted?_of_parse hcode rfl]
  show SourceNode.peel p.statement = _
  rw [SourceNode.peel_of_soleNamed? (show _ = some p.root from rfl) hstatement,
    SourceNode.peel_of_not_onlyTerminates hroot]

theorem toPattern_root {p : Pair} {first operator second : SourceNode} {slot : Role}
    (hroot : p.root.metavariable? = none)
    (hchildren : p.root.children = [⟨.child, first⟩, ⟨slot, operator⟩, ⟨.child, second⟩])
    (hfirst : first.metavariable? = some ("X", .single))
    (hoperator : operator.metavariable? = none) (htext : operator.ownText? = some operator.kind)
    (hleaf : operator.children = []) (hsecond : second.metavariable? = some ("X", .single)) :
    (toPattern [] p.root .root).1 = .literal p.root.kind none
      [(.child, .any (some "X")), (slot, .literal operator.kind (some operator.kind) []),
        (.child, .backreference "X")] := by
  have hnone : p.root.ownText? = none := rfl
  simp only [toPattern_of_literal hroot, hnone, hchildren, toSlots_cons,
    toPattern_of_found hfirst, toPattern_of_literal hoperator, htext, hleaf, toSlots_nil,
    toPattern_of_found hsecond]
  rfl

end Pair

/-- A comparison in Python. -/
def comparison : Pair where
  file := "module"
  kind := "comparison_operator"
  operator := "=="
  second := "identifier"
  field := some "operators"

def comparing : Template where
  source := "$X == $X"
  language := .python
  metavariables := [⟨"X", .single, 0⟩, ⟨"X", .single, 6⟩]
  pattern := comparison.pattern ⟨"operators", none⟩

theorem denoted?_comparing :
    denoted? comparison.parser .python "$X == $X" = some comparison.root :=
  Pair.denoted?_source (t := comparing) (by decide +kernel) (by decide +kernel) (by decide +kernel)

theorem compile_comparing : compile comparison.parser .python "$X == $X" = .ok comparing := by
  refine compile_eq_ok_iff.2 ⟨_, denoted?_comparing, ?_, by decide +kernel, rfl, rfl⟩
  rw [CheckedPattern.ofPattern_eq_ok_iff, Pair.toPattern_root (by decide +kernel) rfl
    (by decide +kernel) (by decide +kernel) (by decide +kernel) rfl (by decide +kernel)]
  rfl

/-- The sides of the comparison are of one kind, so their places agree. -/
theorem hasMatch_comparison : comparing.pattern.hasMatch target comparison.root := by
  obtain ⟨root, hroot, hmatch, -⟩ := matches_denoted compile_comparing
  cases hroot.symm.trans denoted?_comparing
  exact hmatch (by decide +kernel)

/-- An expression and its type in TypeScript. -/
def satisfaction : Pair where
  file := "program"
  kind := "satisfies_expression"
  operator := "satisfies"
  second := "type_identifier"
  field := none

def satisfying : Template where
  source := "$X satisfies $X"
  language := .typescript
  metavariables := [⟨"X", .single, 0⟩, ⟨"X", .single, 13⟩]
  pattern := satisfaction.pattern .child

theorem denoted?_satisfying :
    denoted? satisfaction.parser .typescript "$X satisfies $X" = some satisfaction.root :=
  Pair.denoted?_source (t := satisfying) (by decide +kernel) (by decide +kernel) (by decide +kernel)

theorem compile_satisfying :
    compile satisfaction.parser .typescript "$X satisfies $X" = .ok satisfying := by
  refine compile_eq_ok_iff.2 ⟨_, denoted?_satisfying, ?_, by decide +kernel, rfl, rfl⟩
  rw [CheckedPattern.ofPattern_eq_ok_iff, Pair.toPattern_root (by decide +kernel) rfl
    (by decide +kernel) (by decide +kernel) (by decide +kernel) rfl (by decide +kernel)]
  rfl

/-- A template need not match its own code: an expression and a type are of different kinds, and no
name stands for both. -/
theorem not_hasMatch_satisfaction :
    ¬∀ (parser : Parser) (language : Language) (source : String) (t : Template),
      compile parser language source = .ok t →
      ∃ root, denoted? parser language source = some root ∧ t.pattern.hasMatch target root := by
  intro h
  obtain ⟨root, hroot, hmatch⟩ :=
    h satisfaction.parser .typescript "$X satisfies $X" satisfying compile_satisfying
  cases hroot.symm.trans denoted?_satisfying
  exact absurd hmatch (by decide +kernel)

end Template
end StructuralSearch
