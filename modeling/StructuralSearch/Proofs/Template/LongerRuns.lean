import Mathlib.Data.List.Lex
import StructuralSearch.Proofs.Matching.BoundNames
import StructuralSearch.Proofs.Template.Runs

/-!
# Longer runs first

Where all runs of a template are captured under names of their own, each match is told from the
others by how many nodes they are bound to: a run that can take a sibling does so first, and the run
that stands further left decides before those to its right and those below later siblings.
-/
namespace StructuralSearch

variable {ν : Type}

/-- How many nodes each of the names is bound to. -/
def Log.lengths (names : List String) (log : Log ν) : List Nat :=
  names.map fun name => (log.boundTo name).length

/-- How many nodes each of the names is bound to. -/
def Match.lengths (names : List String) (m : Match ν) : List Nat :=
  names.map fun name => (m.get name).length

theorem Match.lengths_ofLog (names : List String) (log : Log ν) :
    (Match.ofLog log).lengths names = log.lengths names := by
  rw [Match.lengths, Match.get_ofLog]
  rfl

/-- Of lists that are equally long and in order, longer ones with them in front are in order too. -/
theorem append_lt_append_of_length_eq {as bs : List Nat} (h : as < bs)
    (hlength : as.length = bs.length) (cs ds : List Nat) : as ++ cs < bs ++ ds := by
  induction as generalizing bs with
  | nil =>
    rw [List.eq_nil_of_length_eq_zero hlength.symm] at h
    exact absurd h (List.not_lt_nil [])
  | cons a as ih =>
    cases bs with
    | nil => exact absurd h (List.not_lt_nil _)
    | cons b bs =>
      refine List.cons_lt_cons_iff.2 ((List.cons_lt_cons_iff.1 h).imp_right ?_)
      exact fun ⟨hab, hlt⟩ => ⟨hab, ih hlt (Nat.succ.inj hlength)⟩

namespace Pattern

mutual

/-- The runs in a pattern from left to right: for each the name that it is captured under, if it
is. -/
def runs : Pattern → List (Option String)
  | .any _ => []
  | .capture name (.repetition _ _ _) => [some name]
  | .capture _ inner => runs inner
  | .optional inner => runs inner
  | .repetition _ _ _ => [none]
  | .choice alternatives => runsInEach alternatives
  | .backreference _ => []
  | .literal _ _ slots => runsInSlots slots
  | .adapter _ inner => runs inner
termination_by structural p => p

def runsInEach : List Pattern → List (Option String)
  | [] => []
  | p :: ps => runs p ++ runsInEach ps
termination_by structural ps => ps

def runsInSlots : List (Role × Pattern) → List (Option String)
  | [] => []
  | (_, p) :: rest => runs p ++ runsInSlots rest
termination_by structural slots => slots

end

theorem Single.runs_eq_nil {p : Pattern} (h : Single p) : p.runs = [] := by
  induction h with
  | any name => rfl
  | backreference name => rfl
  | adapter construct _ ih => exact ih

theorem mem_runsInSlots {slots : List (Role × Pattern)} {r : Option String} :
    r ∈ runsInSlots slots ↔ ∃ s ∈ slots, r ∈ runs s.2 := by
  induction slots with
  | nil => simp [runsInSlots]
  | cons s rest ih => rw [runsInSlots, List.mem_append, ih, List.exists_mem_cons_iff]

/-- A run that is captured under a name binds it. -/
theorem Converted.mem_boundIn {p : Pattern} (h : Converted p) {name : String}
    (hname : some name ∈ p.runs) : name ∈ boundIn (occurrences p) := by
  induction h with
  | single h =>
    rw [h.runs_eq_nil] at hname
    cases hname
  | wildcardRun => cases List.mem_singleton.1 hname
  | run other =>
    cases List.mem_singleton.1 hname
    rw [boundIn_capture]
    exact List.mem_append_right _ (List.mem_singleton_self name)
  | literal kind text _ ih =>
    obtain ⟨s, hs, hname⟩ := mem_runsInSlots.1 hname
    rw [boundIn_literal]
    exact List.mem_flatMap.2 ⟨s, hs, ih s hs hname⟩

/-- The runs are captured under the names, and nothing but the run binds a name. -/
structure RunsNamed (p : Pattern) (names : List String) : Prop where
  captured : p.runs = names.map some
  once : ∀ name ∈ names, (boundIn (occurrences p)).count name = 1

theorem count_of_mem_left {as bs : List String} {a : String} (h : (as ++ bs).count a = 1)
    (ha : a ∈ as) : as.count a = 1 ∧ a ∉ bs := by
  have hpos := List.count_pos_iff.2 ha
  rw [List.count_append] at h
  exact ⟨by omega, List.count_eq_zero.1 (by omega)⟩

/-- The names of the runs in the first slot and those in the others. -/
theorem RunsNamed.split {kind : String} {text : Option String} {s : Role × Pattern}
    {rest : List (Role × Pattern)} {names : List String}
    (h : RunsNamed (.literal kind text (s :: rest)) names) (hs : Converted s.2)
    (hrest : Converted (.literal kind text rest)) :
    ∃ first later, names = first ++ later ∧ s.2.RunsNamed first ∧
      RunsNamed (.literal kind text rest) later ∧
      ∀ name ∈ first, name ∉ boundIn (occurrences (.literal kind text rest)) := by
  obtain ⟨first, later, rfl, hfirst, hlater⟩ := List.map_eq_append_iff.1 h.captured.symm
  have hfirst : s.2.runs = first.map some := hfirst.symm
  have hlater : (literal kind text rest).runs = later.map some := hlater.symm
  have honce : ∀ name ∈ first ++ later, (boundIn (occurrences s.2) ++
      boundIn (occurrences (.literal kind text rest))).count name = 1 := by
    intro name hname
    have honce := h.once name hname
    rwa [boundIn_literal, List.flatMap_cons, ← boundIn_literal kind text] at honce
  have hown : ∀ name ∈ first, (boundIn (occurrences s.2)).count name = 1 ∧
      name ∉ boundIn (occurrences (.literal kind text rest)) := fun name hname =>
    count_of_mem_left (honce name (List.mem_append_left later hname))
      (hs.mem_boundIn (hfirst ▸ List.mem_map_of_mem hname))
  refine ⟨first, later, rfl, ⟨hfirst, fun name hname => (hown name hname).1⟩,
    ⟨hlater, fun name hname => ?_⟩, fun name hname => (hown name hname).2⟩
  have honce := honce name (List.mem_append_right first hname)
  rw [List.perm_append_comm.count_eq] at honce
  exact (count_of_mem_left honce (hrest.mem_boundIn (hlater ▸ List.mem_map_of_mem hname))).1

/-- Outcomes with longer runs come before those with shorter ones; the runs further left count
first. -/
def LongerFirst (t : Target ν) (p : Pattern) : Prop :=
  ∀ names, p.RunsNamed names → ∀ slot siblings i log,
    (outcomes t p slot siblings i log).Pairwise fun o o' => o'.log.lengths names < o.log.lengths names

theorem longerFirst_run (t : Target ν) (name : String) :
    LongerFirst t (.capture name (.star (.any none))) := by
  intro names hnames slot siblings i log
  obtain ⟨other, rfl, hother⟩ := List.map_eq_singleton_iff.1 hnames.captured.symm
  obtain rfl : name = other := (Option.some.inj hother).symm
  have hreach := inReach_outcomes t (.star (.any none)) slot siblings i log
  have hlength : ∀ o ∈ outcomes t (.star (.any none)) slot siblings i log,
      (o.log.addRun name ((between siblings i o.index).map (·.node))).lengths [name] =
        [(log.boundTo name).length + (o.index - i)] := by
    intro o ho
    rw [Log.lengths, List.map_singleton, Log.boundTo_addRun, if_pos rfl, List.length_append,
      List.length_map, length_between (hreach o ho), Template.log_of_mem_outcomes_star_any ho]
  refine List.pairwise_map.2 (pairwise_index_star_any.imp_of_mem ?_)
  intro o o' ho ho' hlt
  rw [hlength o ho, hlength o' ho']
  have hstart := (hreach o' ho').1
  exact List.cons_lt_cons_iff.2 (.inl (by omega))

/-- What the later slots bind makes no difference to the names of the first one. -/
theorem lengths_inTurn {t : Target ν} {kind : String} {text : Option String}
    {slots : List (Role × Pattern)} {names : List String}
    (hnames : ∀ name ∈ names, name ∉ boundIn (occurrences (.literal kind text slots)))
    {siblings : Array (Child ν)} {i : Nat} {log : Log ν} :
    ∀ o ∈ outcomesInTurn t slots siblings i log, o.log.lengths names = log.lengths names := by
  intro o ho
  have hgains := gainsNames_inTurn (fun s _ => gainsNames t s.2) ho
  rw [← boundIn_literal kind text] at hgains
  refine List.map_congr_left fun name hname => ?_
  rw [hgains.boundTo_eq (hnames name hname)]

theorem longerFirst_inTurn {t : Target ν} {slots : List (Role × Pattern)}
    (hslots : ∀ s ∈ slots, Converted s.2) (hlonger : ∀ s ∈ slots, s.2.LongerFirst t) {kind : String}
    {text : Option String} {names : List String}
    (hnames : RunsNamed (.literal kind text slots) names) {siblings : Array (Child ν)} {i : Nat}
    {log : Log ν} : (outcomesInTurn t slots siblings i log).Pairwise
      fun o o' => o'.log.lengths names < o.log.lengths names := by
  induction slots generalizing names i log with
  | nil => exact List.pairwise_singleton _ _
  | cons s rest ih =>
    obtain ⟨hs, hrest⟩ := List.forall_mem_cons.1 hslots
    obtain ⟨hlong, hlongrest⟩ := List.forall_mem_cons.1 hlonger
    obtain ⟨first, later, rfl, hfirst, hlater, hapart⟩ := hnames.split hs (.literal kind text hrest)
    have hsplit : ∀ log : Log ν,
        log.lengths (first ++ later) = log.lengths first ++ log.lengths later :=
      fun log => List.map_append
    simp only [hsplit]
    -- After one outcome of the first slot the later slots decide. Two outcomes of the first slot differ
    -- in its own runs, whatever the later slots make of them.
    refine List.pairwise_flatMap.2 ⟨fun one _ => ?_, ?_⟩
    · refine (ih hrest hlongrest hlater).imp_of_mem ?_
      intro o o' ho ho' hlt
      rw [lengths_inTurn hapart o ho, lengths_inTurn hapart o' ho']
      exact List.append_left_lt hlt
    · refine (hlong first hfirst s.1 siblings i log).imp ?_
      intro one other hlt o ho o' ho'
      rw [lengths_inTurn hapart o ho, lengths_inTurn hapart o' ho']
      refine append_lt_append_of_length_eq hlt ?_ _ _
      rw [Log.lengths, Log.lengths, List.length_map, List.length_map]

theorem Converted.longerFirst (t : Target ν) {p : Pattern} (h : Converted p) : p.LongerFirst t := by
  induction h with
  | single h => exact fun _ _ _ _ _ _ => h.pairwise_outcomes _
  | wildcardRun =>
    intro names hnames
    obtain ⟨_, -, hnone⟩ := List.map_eq_singleton_iff.1 hnames.captured.symm
    cases hnone
  | run name => exact longerFirst_run t name
  | literal kind text hslots ih =>
    intro names hnames slot siblings i log
    exact pairwise_outcomes_literal fun children =>
      (longerFirst_inTurn hslots ih hnames).filter _

end Pattern

namespace Template

open SourceNode (target)

/-- **Longer runs first.** Let all runs of a template be captured, each under a name that nothing
else binds. By how many nodes are bound to each of these names, from left to right, the matches with
a node come in strictly decreasing lexicographic order. So no two of them agree on all these
numbers, and the match that is preferred is the greatest. -/
theorem results_by_lengths_of_runs {root : SourceNode} {p : CheckedPattern} {names : List String}
    (hp : CheckedPattern.ofPattern (toPattern [] root .root).1 = .ok p)
    (hnames : (toPattern [] root .root).1.RunsNamed names) (t : Target ν) (n : ν) :
    let results := (p.onNode n).results t
    (results.map (·.lengths names)).Pairwise (· > ·) ∧ (results.map (·.lengths names)).Nodup ∧
      ∀ m ∈ results, ∃ first ∈ results.head?, p.preferred? t n = some first ∧
        m.lengths names ≤ first.lengths names := by
  intro results
  have hresults : results = matchesOf t p.elements [⟨.root, n⟩] :=
    Matcher.results_start t p.elements [⟨.root, n⟩]
  have hordered : (results.map (·.lengths names)).Pairwise (· > ·) := by
    rw [hresults, CheckedPattern.ofPattern_eq_ok_iff.1 hp, matchesOf_one, List.pairwise_map,
      List.pairwise_map]
    simp only [Match.lengths_ofLog]
    exact ((converted_toPattern.1 [] root .root).longerFirst t names hnames _ _ _ _).filter _
  have hpreferred : p.preferred? t n = results.head? := by
    rw [hresults, CheckedPattern.preferred?_eq_head?]
  refine ⟨hordered, hordered.imp ne_of_gt, fun m hm => ?_⟩
  obtain ⟨first, rest, hfirst⟩ := List.exists_cons_of_ne_nil (List.ne_nil_of_mem hm)
  rw [hfirst] at hordered hm
  rw [hpreferred, hfirst]
  refine ⟨first, rfl, rfl, ?_⟩
  rcases List.mem_cons.1 hm with rfl | hm
  · exact le_refl _
  · exact ((List.pairwise_cons.1 hordered).1 _ (List.mem_map_of_mem hm)).le

/-- Any statements, a list that ends in some name, any statements, and that name again. -/
def listsAndLast : SourceNode where
  source := "__HEDDLE_METAVARS_XS__ [__HEDDLE_METAVARS_YS__ __HEDDLE_METAVAR_X__] " ++
    "__HEDDLE_METAVARS_ZS__ __HEDDLE_METAVAR_X__"
  trail := []
  tree := sound "block" true 0 112 none
    [sound "identifier" true 0 22 none [],
      sound "list" true 23 68 none
        [sound "[" false 23 24 none [], sound "identifier" true 24 46 none [],
          sound "identifier" true 47 67 none [], sound "]" false 67 68 none []],
      sound "identifier" true 69 91 none [],
      sound "identifier" true 92 112 none []]

def listsAndLastPattern : CheckedPattern where
  elements := [.literal "block" none
    [(Source.statement, .capture "XS" (.star (.any none))),
      (Source.statement, .literal "list" none
        [(.child, .literal "[" (some "[") []), (.child, .capture "YS" (.star (.any none))),
          (.child, .any (some "X")), (.child, .literal "]" (some "]") [])]),
      (Source.statement, .capture "ZS" (.star (.any none))),
      (Source.statement, .adapter .statement (.backreference "X"))]]
  captures := ["XS", "YS", "X", "ZS"]
  checked := rfl

/-- Three lists, the first and the last of which end in the last name. -/
def threeLists : SourceNode where
  source := "a [a b] [a] [b] b b"
  trail := []
  tree := sound "block" true 0 19 none
    [sound "identifier" true 0 1 none [],
      sound "list" true 2 7 none
        [sound "[" false 2 3 none [], sound "identifier" true 3 4 none [],
          sound "identifier" true 5 6 none [], sound "]" false 6 7 none []],
      sound "list" true 8 11 none
        [sound "[" false 8 9 none [], sound "identifier" true 9 10 none [],
          sound "]" false 10 11 none []],
      sound "list" true 12 15 none
        [sound "[" false 12 13 none [], sound "identifier" true 13 14 none [],
          sound "]" false 14 15 none []],
      sound "identifier" true 16 17 none [],
      sound "identifier" true 18 19 none []]

theorem toPattern_listsAndLast :
    [(toPattern [] listsAndLast .root).1] = listsAndLastPattern.elements := by
  have hliteral : ∀ path ∈ [[], [1], [1, 0], [1, 3]],
      SourceNode.metavariable? (nodeAt listsAndLast path) = none := by decide +kernel
  have hpattern : ∀ path ∈ [[], [1], [1, 0], [1, 3]], ∀ bound slot,
      toPattern bound (nodeAt listsAndLast path) slot =
        (.literal (nodeAt listsAndLast path).kind (nodeAt listsAndLast path).ownText?
          (toSlots bound (nodeAt listsAndLast path).children).1,
        (toSlots bound (nodeAt listsAndLast path).children).2) :=
    fun path hpath bound slot => toPattern_of_literal (hliteral path hpath)
  have hfound : SourceNode.metavariable? (nodeAt listsAndLast [0]) = some ("XS", .multiple) ∧
      SourceNode.metavariable? (nodeAt listsAndLast [1, 1]) = some ("YS", .multiple) ∧
      SourceNode.metavariable? (nodeAt listsAndLast [1, 2]) = some ("X", .single) ∧
      SourceNode.metavariable? (nodeAt listsAndLast [2]) = some ("ZS", .multiple) ∧
      SourceNode.metavariable? (nodeAt listsAndLast [3]) = some ("X", .single) := by decide +kernel
  obtain ⟨hxs, hys, hx, hzs, hx'⟩ := hfound
  have hwhole : (nodeAt listsAndLast []).children =
      [⟨Source.statement, nodeAt listsAndLast [0]⟩, ⟨Source.statement, nodeAt listsAndLast [1]⟩,
        ⟨Source.statement, nodeAt listsAndLast [2]⟩,
        ⟨Source.statement, nodeAt listsAndLast [3]⟩] := rfl
  have hlist : (nodeAt listsAndLast [1]).children =
      [⟨.child, nodeAt listsAndLast [1, 0]⟩, ⟨.child, nodeAt listsAndLast [1, 1]⟩,
        ⟨.child, nodeAt listsAndLast [1, 2]⟩, ⟨.child, nodeAt listsAndLast [1, 3]⟩] := rfl
  have hleaves : (nodeAt listsAndLast [1, 0]).children = [] ∧
      (nodeAt listsAndLast [1, 3]).children = [] := ⟨rfl, rfl⟩
  have htexts : (nodeAt listsAndLast []).ownText? = none ∧
      (nodeAt listsAndLast [1]).ownText? = none ∧
      (nodeAt listsAndLast [1, 0]).ownText? = some "[" ∧
      (nodeAt listsAndLast [1, 3]).ownText? = some "]" := by decide +kernel
  show [(toPattern [] (nodeAt listsAndLast []) .root).1] = _
  simp (disch := decide) only [hpattern, toPattern_of_found hxs, toPattern_of_found hys,
    toPattern_of_found hx, toPattern_of_found hzs, toPattern_of_found hx', hwhole, hlist, hleaves,
    htexts, toSlots_cons, toSlots_nil]
  rfl

/-- The second of the lists ends in another name. Before the third there is more than before the
first. -/
theorem threeLists_in_order_of_lengths :
    let names := ["XS", "YS", "ZS"]
    let results := (listsAndLastPattern.onNode threeLists).results target
    (toPattern [] listsAndLast .root).1.RunsNamed names ∧
      results.map (·.lengths names) = [[3, 0, 1], [1, 1, 3]] ∧
      (results.map (·.lengths names)).Pairwise (· > ·) ∧ (results.map (·.lengths names)).Nodup ∧
      ∀ m ∈ results, ∃ first ∈ results.head?,
        listsAndLastPattern.preferred? target threeLists = some first ∧
          m.lengths names ≤ first.lengths names := by
  intro names results
  have hpattern : (toPattern [] listsAndLast .root).1 = listsAndLastPattern.elements.head! :=
    List.singleton_inj.1 toPattern_listsAndLast
  have hnames : (toPattern [] listsAndLast .root).1.RunsNamed names := by
    rw [hpattern]
    exact ⟨by rfl, by decide +kernel⟩
  have hresults := map_get_results listsAndLastPattern threeLists fun bound =>
    names.map fun name => (bound name).length
  refine ⟨hnames, hresults.trans (by decide +kernel), ?_⟩
  exact results_by_lengths_of_runs
    (CheckedPattern.ofPattern_eq_ok_iff.2 toPattern_listsAndLast.symm) hnames target threeLists

end Template
end StructuralSearch
