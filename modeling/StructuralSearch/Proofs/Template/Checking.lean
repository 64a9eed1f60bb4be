import StructuralSearch.Proofs.Template.Binders

/-!
# Templates convert to checked patterns

Conversion keeps the names that it has bound, and checking collects those that it comes across. Both
go through a template in the same order, so a name that conversion refers back to is known to
checking by then, and compiling never fails for a bad pattern. The names captured can be read off
the leaves: a statement that stands for the expression in it adds nothing to them but semicolons.
-/
namespace StructuralSearch

namespace Template

open Except (bind_eq_ok_iff eq_or_exists_of_bind_eq_error seq_eq_ok_iff)
open Pattern (check checkSlots addName)

/-! ## Placeholders have names -/

theorem ne_empty_of_nameInPlaceholder? {kind : MetavariableKind} {text name : String}
    (h : nameInPlaceholder? kind text = some name) : name ≠ "" := by
  obtain ⟨rest, -, h⟩ := Option.bind_eq_some_iff.1 h
  obtain ⟨letters, -, h⟩ := Option.bind_eq_some_iff.1 h
  split at h
  · cases h
  · rename_i hletters
    cases h
    intro hempty
    rw [← String.toList_eq_nil_iff, String.toList_ofList] at hempty
    exact hletters (List.isEmpty_iff.2 hempty)

theorem ne_empty_of_ofPlaceholder? {text name : String} {kind : MetavariableKind}
    (h : ofPlaceholder? text = some (name, kind)) : name ≠ "" := by
  rcases Option.or_eq_some_iff.1 h with h | ⟨-, h⟩
  all_goals
    obtain ⟨name, hname, hfound⟩ := Option.map_eq_some_iff.1 h
    cases hfound
    exact ne_empty_of_nameInPlaceholder? hname

/-- A metavariable is read from the text of the node or of a node within. -/
theorem exists_ofPlaceholder?_of_metavariable? {n : SourceNode}
    {found : String × MetavariableKind} (h : n.metavariable? = some found) :
    ∃ text, ofPlaceholder? text = some found := by
  fun_induction SourceNode.metavariable? n with
  | case1 n own hown =>
    cases h
    obtain ⟨text, -, htext⟩ := Option.bind_eq_some_iff.1 hown
    exact ⟨text, htext⟩
  | case2 n hown hterminates inner hinner _ ih => exact ih h
  | case3 => cases h
  | case4 => cases h

/-! ## Checking follows conversion -/

section

variable {bound known : List String} {name : String} {slot : Role} {place : Option Role}

theorem check_singlePattern (place : Option Role) (hname : name ≠ "") (hknown : bound ⊆ known) :
    ∃ names, check place (singlePattern bound name) known = .ok names ∧
      singleBound bound name ⊆ names := by
  rw [singlePattern, singleBound]
  split
  · exact ⟨known, rfl, hknown⟩
  · split
    · rename_i hbound
      refine ⟨known, ?_, hknown⟩
      have hmem := List.contains_iff_mem.2 (hknown (List.contains_iff_mem.1 hbound))
      rw [check, if_neg (mt String.isEmpty_iff.1 hname), if_pos hmem]
    · refine ⟨addName known name, Pattern.declare_eq_ok_iff.2 ⟨hname, rfl⟩, ?_⟩
      refine List.cons_subset.2 ⟨Pattern.mem_addName.2 (.inr rfl), fun other hother => ?_⟩
      exact Pattern.mem_addName.2 (.inl (hknown hother))

/-- The adapter around a single node is the one that its slot expects. -/
theorem check_metavariablePattern (kind : MetavariableKind) (hplace : ∀ role ∈ place, role = slot)
    (hname : name ≠ "") (hknown : bound ⊆ known) :
    ∃ names, check place (metavariablePattern bound name kind slot).1 known = .ok names ∧
      (metavariablePattern bound name kind slot).2 ⊆ names := by
  cases kind with
  | single =>
    obtain ⟨names, hcheck, hbound⟩ := check_singlePattern place hname hknown
    rw [metavariablePattern_single]
    refine ⟨names, ?_, hbound⟩
    dsimp only
    split
    · rename_i construct hexpects
      refine seq_eq_ok_iff.2 ⟨Pattern.checkAdapter_eq_ok_iff.2 ?_, hcheck⟩
      intro role hrole expected hexpected
      rw [hplace role hrole, hexpects] at hexpected
      exact (Option.some.inj hexpected).symm
    · exact hcheck
  | multiple =>
    rw [metavariablePattern]
    split
    · exact ⟨known, rfl, hknown⟩
    · refine ⟨addName known name, Pattern.declare_eq_ok_iff.2 ⟨hname, rfl⟩, ?_⟩
      refine List.cons_subset.2 ⟨Pattern.mem_addName.2 (.inr rfl), fun other hother => ?_⟩
      exact Pattern.mem_addName.2 (.inl (hknown hother))

end

/-- Where what conversion has bound is known, its pattern checks, and then what it has bound after
the pattern is known. -/
theorem check_toPattern :
    (∀ (bound : List String) (n : SourceNode) (slot : Role) (place : Option Role)
      (known : List String), (∀ role ∈ place, role = slot) → bound ⊆ known →
      ∃ names, check place (toPattern bound n slot).1 known = .ok names ∧
        (toPattern bound n slot).2 ⊆ names) ∧
    (∀ (bound : List String) (cs : List (Child SourceNode)) (known : List String), bound ⊆ known →
      ∃ names, checkSlots (toSlots bound cs).1 known = .ok names ∧
        (toSlots bound cs).2 ⊆ names) := by
  apply toPattern.mutual_induct
  · intro bound n slot name kind hfound place known hplace hknown
    obtain ⟨text, htext⟩ := exists_ofPlaceholder?_of_metavariable? hfound
    rw [toPattern_of_found hfound]
    exact check_metavariablePattern kind hplace (ne_empty_of_ofPlaceholder? htext) hknown
  · intro bound n slot hliteral slots bound' hslots ih place known _ hknown
    rw [toPattern_of_literal hliteral]
    exact ih known hknown
  · intro bound known hknown
    rw [toSlots_nil]
    exact ⟨known, rfl, hknown⟩
  · intro bound c rest p bound' hp slots bound'' hslots ih ihrest known hknown
    rw [hp] at ih
    obtain ⟨after, hafter, hbound⟩ :=
      ih (some c.role) known (fun _ hrole => (Option.mem_some.1 hrole).symm) hknown
    obtain ⟨names, hnames, hbound'⟩ := ihrest after hbound
    rw [toSlots_cons, hp]
    exact ⟨names, bind_eq_ok_iff.2 ⟨after, hafter, hnames⟩, hbound'⟩

theorem exists_ofPattern_toPattern (root : SourceNode) :
    ∃ p, CheckedPattern.ofPattern (toPattern [] root .root).1 = .ok p := by
  obtain ⟨names, hnames, -⟩ := check_toPattern.1 [] root .root none [] nofun (List.nil_subset _)
  have hchecked : Pattern.checkSequence [(toPattern [] root .root).1] [] = .ok names :=
    bind_eq_ok_iff.2 ⟨names, hnames, rfl⟩
  exact ⟨⟨_, names, hchecked⟩, CheckedPattern.ofPattern_eq_ok_iff.2 rfl⟩

theorem parse_ne_badPattern (parser : Parser) (language : Language) (text : String)
    (fault : PatternFault) : parser.parse language text ≠ .error (.badPattern fault) := by
  intro h
  rw [Parser.parse] at h
  split at h <;> cases h

theorem parseCode_ne_badPattern (parser : Parser) (language : Language) (code : String)
    (fault : PatternFault) : parseCode parser language code ≠ .error (.badPattern fault) := by
  intro h
  rcases eq_or_exists_of_bind_eq_error h with h | ⟨file, -, h⟩
  · exact parse_ne_badPattern parser language code fault h
  · split at h
    · rcases eq_or_exists_of_bind_eq_error h with h | ⟨fragment, -, h⟩
      · exact parse_ne_badPattern parser language _ fault h
      · split at h <;> cases h
    · cases h

/-- Compiling fails for the metavariables, for the code or for what it denotes, but not for the
pattern. -/
theorem compile_ne_badPattern (parser : Parser) (language : Language) (source : String)
    (fault : PatternFault) : compile parser language source ≠ .error (.badPattern fault) := by
  intro h
  rcases eq_or_exists_of_bind_eq_error h with h | ⟨⟨code, found⟩, -, h⟩
  · cases hplaceholders : withPlaceholders source with
    | error fault => rw [hplaceholders] at h; cases h
    | ok normal => rw [hplaceholders] at h; cases h
  · rcases eq_or_exists_of_bind_eq_error h with h | ⟨⟨parsed, wrapped⟩, -, h⟩
    · exact parseCode_ne_badPattern parser language code fault h
    · dsimp only at h
      split at h
      · cases h
      · rename_i root hroot
        obtain ⟨p, hp⟩ := exists_ofPattern_toPattern root
        rw [hp] at h
        cases h

/-! ## The names in the leaves -/

/-- Tokens without a name of their own have no parts, and their text is their kind, or nothing where
the parser has put them in. -/
def PlainTokens (root : SourceNode) : Prop :=
  ∀ n ∈ root.inView, n.label.named = false → n.ownText? = some n.kind ∨ n.ownText? = some ""

instance (root : SourceNode) : Decidable (PlainTokens root) :=
  inferInstanceAs (Decidable (∀ n ∈ root.inView, _))

theorem PlainTokens.child {n : SourceNode} (h : PlainTokens n) {c : Child SourceNode}
    (hc : c ∈ n.children) : PlainTokens c.node := by
  intro m hm
  refine h m ?_
  rw [SourceNode.inView_eq]
  exact List.mem_cons_of_mem _ (List.mem_flatMap.2 ⟨c, hc, hm⟩)

/-- The metavariables of which placeholders stand in the leaves, in their order. -/
def leafMetavariables (n : SourceNode) : List (String × MetavariableKind) :=
  n.leafTexts.filterMap ofPlaceholder?

/-- The names in the leaves, but for the wildcard. -/
def leafNames (n : SourceNode) : List String :=
  ((leafMetavariables n).map (·.1)).filter (· != wildcard)

theorem leafMetavariables_eq (n : SourceNode) :
    leafMetavariables n = (n.ownText?.bind ofPlaceholder?).toList ++
      n.children.flatMap fun c => leafMetavariables c.node := by
  rw [leafMetavariables, SourceNode.leafTexts_eq, List.filterMap_append, List.filterMap_flatMap]
  cases n.ownText? <;> rfl

/-- A leaf has no other leaves below it. -/
theorem leafMetavariables_of_ownText? {n : SourceNode} {text : String}
    (h : n.ownText? = some text) : leafMetavariables n = (ofPlaceholder? text).toList := by
  rw [leafMetavariables_eq, h, SourceNode.children_eq_nil_of_ownText? h]
  exact List.append_nil _

theorem namedBelow_of_soleNamed? {n inner : SourceNode} (h : n.soleNamed? = some inner) :
    n.namedBelow = [inner] := by
  unfold SourceNode.soleNamed? at h
  split at h
  · rename_i only honly
    cases h
    exact honly
  · cases h

theorem mem_children_of_soleNamed? {n inner : SourceNode} (h : n.soleNamed? = some inner) :
    ∃ c ∈ n.children, c.node = inner := by
  have hmem : inner ∈ n.namedBelow := by
    rw [namedBelow_of_soleNamed? h]
    exact List.mem_singleton_self inner
  rw [← List.mem_map, SourceNode.map_node_children]
  obtain ⟨hbelow, hnamed⟩ := List.mem_filter.1 hmem
  exact List.mem_filter.2 ⟨hbelow, (Bool.and_eq_true_iff.1 hnamed).2⟩

/-- Beside the expression a statement that only terminates it has nothing but semicolons, in which
no placeholder stands. -/
theorem leafMetavariables_of_onlyTerminates {n inner : SourceNode} (h : n.onlyTerminates)
    (hinner : n.soleNamed? = some inner) (hplain : PlainTokens n) :
    (n.children.flatMap fun c => leafMetavariables c.node) = leafMetavariables inner := by
  have hparts : ∀ c ∈ n.children, c.node.label.named = false → leafMetavariables c.node = [] := by
    intro c hc hunnamed
    have hmem : c.node ∈ n.below.filter fun c => !c.label.extra := by
      rw [← SourceNode.map_node_children]
      exact List.mem_map_of_mem hc
    have hkind : c.node.kind = ";" := by
      simp only [SourceNode.onlyTerminates, Bool.and_eq_true] at h
      simpa [hunnamed] using List.all_eq_true.1 h.1.2 c.node hmem
    rcases hplain.child hc c.node c.node.mem_inView_self hunnamed with htext | htext
    · rw [leafMetavariables_of_ownText? htext, hkind]
      rfl
    · rw [leafMetavariables_of_ownText? htext]
      rfl
  calc (n.children.flatMap fun c => leafMetavariables c.node)
      = n.children.flatMap fun c => if c.node.label.named then leafMetavariables c.node else [] := by
        refine List.flatMap_congr fun c hc => ?_
        split
        · rfl
        · rename_i hunnamed
          exact hparts c hc (Bool.eq_false_iff.2 hunnamed)
    _ = n.namedBelow.flatMap leafMetavariables := by
        rw [SourceNode.namedBelow, ← List.filter_filter, ← SourceNode.map_node_children,
          flatMap_filter_eq_ite, List.flatMap_map]
    _ = leafMetavariables inner := by
        rw [namedBelow_of_soleNamed? hinner, List.flatMap_singleton]

theorem leafMetavariables_of_found {n : SourceNode} {found : String × MetavariableKind}
    (hplain : PlainTokens n) (h : n.metavariable? = some found) :
    leafMetavariables n = [found] := by
  fun_induction SourceNode.metavariable? n with
  | case1 n own hown =>
    cases h
    obtain ⟨text, htext, hfound⟩ := Option.bind_eq_some_iff.1 hown
    rw [leafMetavariables_of_ownText? htext, hfound]
    rfl
  | case2 n hown hterminates inner hinner _ ih =>
    obtain ⟨c, hc, rfl⟩ := mem_children_of_soleNamed? hinner
    rw [leafMetavariables_eq, hown, leafMetavariables_of_onlyTerminates hterminates hinner hplain,
      ih (hplain.child hc) h]
    rfl
  | case3 => cases h
  | case4 => cases h

theorem ofPlaceholder?_of_literal {n : SourceNode} (h : n.metavariable? = none) :
    n.ownText?.bind ofPlaceholder? = none := by
  rw [SourceNode.metavariable?] at h
  split at h
  · cases h
  · assumption

/-- Conversion reads all placeholders in the leaves, and no others. -/
theorem decoded_eq_leafMetavariables {n : SourceNode} (hplain : PlainTokens n) :
    decoded n = leafMetavariables n := by
  fun_induction decoded n with
  | case1 n found hfound => exact (leafMetavariables_of_found hplain hfound).symm
  | case2 n hliteral ih =>
    rw [leafMetavariables_eq, ofPlaceholder?_of_literal hliteral]
    exact (List.flatMap_congr fun c _ => ih c (hplain.child c.2)).trans
      (flatMap_attach n.children fun c => leafMetavariables c.node)

/-- A metavariable that does not bind its name adds no name: it is the wildcard or one of a name
known before. -/
theorem foldl_addName_binders {bound known : List String} (hknown : bound ⊆ known)
    (found : List (String × MetavariableKind)) :
    ((binders bound found).map (·.1)).foldl addName known =
      ((found.map (·.1)).filter (· != wildcard)).foldl addName known := by
  induction found generalizing bound known with
  | nil => rfl
  | cons d rest ih =>
    rw [binders, List.map_cons, List.filter_cons]
    split
    · rename_i hbinds
      have hadded : d.1 :: bound ⊆ addName known d.1 := List.cons_subset.2
        ⟨Pattern.mem_addName.2 (.inr rfl), fun _ hname => Pattern.mem_addName.2 (.inl (hknown hname))⟩
      rw [if_pos (bne_iff_ne.2 (bindsAfter_iff.1 hbinds).1), List.map_cons, List.foldl_cons,
        List.foldl_cons, ih hadded]
    · rename_i hbinds
      rw [ih hknown]
      split
      · rename_i hnamed
        have hbound : d.1 ∈ bound := by
          by_contra hnew
          exact hbinds (bindsAfter_iff.2 ⟨bne_iff_ne.1 hnamed, .inr hnew⟩)
        rw [List.foldl_cons, Pattern.addName_of_mem (hknown hbound)]
      · rfl

/-- **Templates convert to checked patterns.** Whatever node a template denotes, the pattern that it
is converted to checks, so no template fails to compile for its pattern. The names captured are
those that stand in the leaves, but for the wildcard: in order of their first place, and each of
them once. -/
theorem toPattern_checks :
    (∀ root : SourceNode, ∃ p, CheckedPattern.ofPattern (toPattern [] root .root).1 = .ok p ∧
      (PlainTokens root → p.captures = (leafNames root).eraseDups)) ∧
    ∀ (parser : Parser) (language : Language) (source : String) (fault : PatternFault),
      compile parser language source ≠ .error (.badPattern fault) := by
  refine ⟨fun root => ?_, compile_ne_badPattern⟩
  obtain ⟨p, hp⟩ := exists_ofPattern_toPattern root
  refine ⟨p, hp, fun hplain => ?_⟩
  rw [captures_toPattern hp, decoded_eq_leafMetavariables hplain, leafNames,
    ← Pattern.foldl_addName_eq_eraseDups, ← Pattern.foldl_addName_eq_eraseDups]
  exact foldl_addName_binders (List.nil_subset _) _

/-- A statement that is one name, and a call of that name with any node and a run. -/
def callTwice : SourceNode where
  source := "\x7b __HEDDLE_METAVAR_X__; __HEDDLE_METAVAR_X__(__HEDDLE_METAVAR____, __HEDDLE_METAVARS_Y__); \x7d"
  trail := []
  tree := sound "block" true 0 92 none
    [sound "\x7b" false 0 1 none [],
      sound "expression_statement" true 2 23 none
        [sound "identifier" true 2 22 none [], sound ";" false 22 23 none []],
      sound "expression_statement" true 24 90 none
        [sound "call_expression" true 24 89 none
          [sound "identifier" true 24 44 (some "function") [],
            sound "arguments" true 44 89 (some "arguments")
              [sound "(" false 44 45 none [], sound "identifier" true 45 65 none [],
                sound "," false 65 66 none [], sound "identifier" true 67 88 none [],
                sound ")" false 88 89 none []]],
          sound ";" false 89 90 none []],
      sound "\x7d" false 91 92 none []]

theorem toPattern_callTwice_checks :
    PlainTokens callTwice ∧
      ∃ p, CheckedPattern.ofPattern (toPattern [] callTwice .root).1 = .ok p ∧
        p.captures = ["X", "Y"] := by
  have hplain : PlainTokens callTwice := by decide +kernel
  have hnames : (leafNames callTwice).eraseDups = ["X", "Y"] := by decide +kernel
  obtain ⟨p, hp, hcaptures⟩ := toPattern_checks.1 callTwice
  exact ⟨hplain, p, hp, (hcaptures hplain).trans hnames⟩

end Template
end StructuralSearch
