import StructuralSearch.Proofs.Matching.Agreement
import StructuralSearch.Proofs.Matching.Derivation
import StructuralSearch.Proofs.Pattern.Occurrence

/-!
# Matching side by side

A pattern is matched in two places at once, and a relation says which nodes of the first correspond
to which of the second. When what the pattern asks in the first place passes on to the second, its
matches there are found again, with corresponding nodes. When it passes on both ways, the matches
correspond one by one.
-/
namespace StructuralSearch

variable {ν ν' : Type}

/-- The children have corresponding roles, and are corresponding nodes. -/
def Child.Alike (roles : Role → Role → Prop) (same : ν → ν' → Prop) (c : Child ν)
    (c' : Child ν') : Prop :=
  roles c.role c'.role ∧ same c.node c'.node

/-- Corresponding nodes have corresponding children, and corresponding roles have the same name. -/
structure SideBySide (roles : Role → Role → Prop) (same : ν → ν' → Prop) (t : Target ν)
    (t' : Target ν') : Prop where
  name : ∀ r r', roles r r' → r'.name = r.name
  children : ∀ n n', same n n' →
    List.Forall₂ (Child.Alike roles same) (t.children n) (t'.children n')

/-- What a pattern asks of nodes and roles by itself, and not through its parts, passes on to
corresponding ones. -/
def Pattern.PassesOn (roles : Role → Role → Prop) (same : ν → ν' → Prop) (t : Target ν)
    (t' : Target ν') : Pattern → Prop
  | .any _ | .capture _ _ | .optional _ | .repetition _ _ _ | .choice _ => True
  | .backreference _ => ∀ m m' n n', same m m' → same n n' → t.sameContent m n →
    t'.sameContent m' n'
  | .literal kind text _ => ∀ n n', same n n' → t.kind n = kind ∧ text.all (t.hasText n) →
    t'.kind n' = kind ∧ text.all (t'.hasText n')
  | .adapter construct _ => ∀ r r', roles r r' → r.accepts construct → r'.accepts construct

theorem TreeView.textIs_congr {v : TreeView ν} {v' : TreeView ν'} {n : ν} {n' : ν'}
    (h : v'.text n' = v.text n) : v'.textIs n' = v.textIs n := by
  funext text
  rw [textIs, textIs, h]

/-- What a literal asks passes on to nodes of the same kind and with the same texts. -/
theorem Pattern.passesOn_literal {roles : Role → Role → Prop} {same : ν → ν' → Prop} {t : Target ν}
    {t' : Target ν'} (h : ∀ n n', same n n' → t'.kind n' = t.kind n ∧ t'.hasText n' = t.hasText n)
    (kind : String) (text : Option String) (slots : List (Role × Pattern)) :
    (literal kind text slots).PassesOn roles same t t' := by
  intro n n' hn hasked
  obtain ⟨hkind, htext⟩ := h n n' hn
  rw [hkind, htext]
  exact hasked

/-! ## Captures -/

def Binding.Agree (same : ν → ν' → Prop) (b : Binding ν) (b' : Binding ν') : Prop :=
  b'.name = b.name ∧ Option.Rel same b.node b'.node

/-- The same names are bound to the same nodes in the same order. -/
def Log.Agree (same : ν → ν' → Prop) (log : Log ν) (log' : Log ν') : Prop :=
  List.Forall₂ (Binding.Agree same) log.toList log'.toList

/-- The matches bind the same names, each to the same nodes in the same order. -/
def Match.Agree (same : ν → ν' → Prop) (m : Match ν) (m' : Match ν') : Prop :=
  List.Forall₂ (fun c c' => c'.1 = c.1 ∧ List.Forall₂ same c.2 c'.2) m.captures m'.captures

theorem Match.Agree.imp {same finer : ν → ν' → Prop} (h : ∀ n n', finer n n' → same n n')
    {m : Match ν} {m' : Match ν'} (hm : m.Agree finer m') : m.Agree same m' :=
  List.Forall₂.imp (fun _ _ hc => ⟨hc.1, hc.2.imp h⟩) hm

variable {roles : Role → Role → Prop} {same : ν → ν' → Prop}

namespace Log.Agree

variable {log : Log ν} {log' : Log ν'}

theorem empty : Log.Agree same .empty .empty :=
  .nil

theorem addRun (h : log.Agree same log') (name : String) {nodes : List ν} {nodes' : List ν'}
    (hnodes : List.Forall₂ same nodes nodes') :
    (log.addRun name nodes).Agree same (log'.addRun name nodes') := by
  rw [Log.Agree, toList_addRun, toList_addRun]
  refine List.rel_append h ?_
  cases hnodes with
  | nil => exact .cons ⟨rfl, .none⟩ .nil
  | cons hfirst hrest =>
    exact List.rel_map (fun n n' hn => ⟨rfl, .some hn⟩) (.cons hfirst hrest)

theorem boundTo (h : log.Agree same log') (name : String) :
    List.Forall₂ same (log.boundTo name) (log'.boundTo name) := by
  refine List.rel_filterMap ?_ h
  intro b b' hb
  dsimp only
  rw [hb.1]
  split
  · exact hb.2
  · exact .none

theorem names (h : log.Agree same log') : log'.names = log.names := by
  have hnames : log'.toList.map (·.name) = log.toList.map (·.name) := by
    refine (List.forall₂_eq_eq_eq ▸ List.rel_map ?_ h : _ = _).symm
    exact fun b b' hb => hb.1.symm
  rw [Log.names, Log.names, hnames]

theorem ofLog (h : log.Agree same log') : (Match.ofLog log).Agree same (.ofLog log') := by
  rw [Match.Agree, Match.ofLog, Match.ofLog, h.names]
  rw [List.forall₂_map_left_iff, List.forall₂_map_right_iff, List.forall₂_same]
  exact fun name _ => ⟨rfl, h.boundTo name⟩

end Log.Agree

/-! ## Siblings -/

/-- The siblings correspond one by one. -/
def SiblingsAlike (roles : Role → Role → Prop) (same : ν → ν' → Prop) (siblings : Array (Child ν))
    (siblings' : Array (Child ν')) : Prop :=
  List.Forall₂ (Child.Alike roles same) siblings.toList siblings'.toList

namespace SiblingsAlike

variable {siblings : Array (Child ν)} {siblings' : Array (Child ν')}

theorem size (h : SiblingsAlike roles same siblings siblings') : siblings'.size = siblings.size :=
  h.length_eq.symm

theorem fitting (h : SiblingsAlike roles same siblings siblings')
    (hname : ∀ r r', roles r r' → r'.name = r.name) (i : Nat) (slot : Role) :
    List.Forall₂ (Child.Alike roles same) (fittingAt? siblings i slot).toList
      (fittingAt? siblings' i slot).toList := by
  rw [fittingAt?, fittingAt?, Option.toList_filter, Option.toList_filter]
  refine List.rel_filter ?_ ?_
  · intro c c' hc
    have hslot : (c'.role == slot) = (c.role == slot) :=
      congrArg (fun own : String => own == slot.name) (hname _ _ hc.1)
    dsimp only
    rw [hslot]
  · rw [← Array.getElem?_toList, ← Array.getElem?_toList, ← List.head?_drop, ← List.head?_drop,
      ← List.take_one, ← List.take_one]
    exact List.forall₂_take 1 (List.forall₂_drop i h)

theorem between (h : SiblingsAlike roles same siblings siblings') (i j : Nat) :
    List.Forall₂ (Child.Alike roles same) (between siblings i j)
      (StructuralSearch.between siblings' i j) := by
  rw [StructuralSearch.between, StructuralSearch.between, Array.toList_extract, Array.toList_extract]
  exact List.forall₂_take _ (List.forall₂_drop _ h)

end SiblingsAlike

/-! ## Outcomes -/

namespace SideBySide

open Pattern (PassesOn Throughout occurrences occurrencesIn)

variable {t : Target ν} {t' : Target ν'}

/-- The two places can change sides. -/
theorem symm (h : SideBySide roles same t t') : SideBySide (flip roles) (flip same) t' t where
  name r r' hr := (h.name r' r hr).symm
  children n n' hn := (h.children n' n hn).flip

/-- What a pattern finds among siblings it finds again among corresponding ones. Its parts may bind
names that a later back-reference compares, so the logs have to correspond all along. -/
theorem outcomes (h : SideBySide roles same t t') (p : Pattern)
    (hp : Throughout (PassesOn roles same t t') (occurrences p)) (slot : Role)
    {siblings : Array (Child ν)} {siblings' : Array (Child ν')}
    (hsiblings : SiblingsAlike roles same siblings siblings') :
    FoundAgain (Log.Agree same) (p.outcomes t slot siblings) (p.outcomes t' slot siblings') := by
  induction p using Pattern.induct generalizing slot siblings siblings' with
  | any name =>
    intro i log log' hlog
    refine sublistForall₂_map (sublistForall₂_of_forall₂ (hsiblings.fitting h.name i slot)) ?_
    intro c c' hc
    refine ⟨rfl, ?_⟩
    cases name with
    | none => exact hlog
    | some name => exact hlog.addRun name (.cons hc.2 .nil)
  | capture name p ih =>
    intro i log log' hlog
    refine sublistForall₂_map (ih hp.inner slot hsiblings i log log' hlog) ?_
    intro o o' ho
    refine ⟨ho.1, ho.2.addRun name ?_⟩
    rw [ho.1]
    exact List.rel_map (fun c c' hc => hc.2) (hsiblings.between i o.index)
  | optional p ih =>
    intro i log log' hlog
    exact sublistForall₂_append (ih hp.inner slot hsiblings i log log' hlog) (.cons ⟨rfl, hlog⟩ .nil)
  | repetition p min max ih =>
    intro i log log' hlog
    rw [Pattern.outcomes, Pattern.outcomes, hsiblings.size]
    exact (ih hp.inner slot hsiblings).repetition siblings.size min max 0 i log log' hlog
  | choice ps ih =>
    exact FoundAgain.ofEach
      (List.forall₂_same.2 fun p hmem => ih p hmem (hp.alternatives p hmem) slot hsiblings)
  | backreference name =>
    intro i log log' hlog
    refine sublistForall₂_map (R := Child.Alike roles same) (sublistForall₂_filter
      (sublistForall₂_of_forall₂ (hsiblings.fitting h.name i slot)) ?_) fun c c' _ => ⟨rfl, hlog⟩
    intro c c' hc hsame
    rw [Bool.and_eq_true, Bool.not_eq_true', List.isEmpty_eq_false_iff] at hsame ⊢
    have hbound := hlog.boundTo name
    constructor
    · intro hnil
      rw [hnil, List.forall₂_nil_right_iff] at hbound
      exact hsame.1 hbound
    · exact all_of_forall₂ hbound (fun n n' hn => hp.self n n' _ _ hn hc.2) hsame.2
  | literal kind text slots ih =>
    intro i log log' hlog
    refine sublistForall₂_flatMap (R := Child.Alike roles same) (sublistForall₂_filter
      (sublistForall₂_of_forall₂ (hsiblings.fitting h.name i slot)) ?_) ?_
    · intro c c' hc hown
      rw [Bool.and_eq_true, beq_iff_eq] at hown ⊢
      exact hp.self _ _ hc.2 hown
    · intro c c' hc
      have hchildren := h.children _ _ hc.2
      have hbelow :
          SiblingsAlike roles same (t.children c.node).toArray (t'.children c'.node).toArray :=
        hchildren
      have hslots := FoundAgain.inTurn
        (List.forall₂_same.2 fun s hs => ih s hs (hp.slots s hs) s.1 hbelow) 0 log log' hlog
      refine sublistForall₂_map (R := Outcome.Agree (Log.Agree same))
        (sublistForall₂_filter hslots ?_) fun o o' ho => ⟨rfl, ho.2⟩
      intro o o' ho hend
      rw [ho.1, ← hchildren.length_eq]
      exact hend
  | adapter construct p ih =>
    intro i log log' hlog
    refine sublistForall₂_filter (ih hp.inner slot hsiblings i log log' hlog) ?_
    intro o o' ho haccepts
    rw [ho.1]
    exact all_of_forall₂ (hsiblings.between i o.index) (fun c c' hc => hp.self _ _ hc.1) haccepts

variable {elements : List Pattern} {siblings : List (Child ν)} {siblings' : List (Child ν')}

/-- Where all that a sequence asks passes on, its matches are found again in their order. -/
theorem matchesOf (h : SideBySide roles same t t')
    (helements : Throughout (PassesOn roles same t t') (occurrencesIn elements))
    (hsiblings : List.Forall₂ (Child.Alike roles same) siblings siblings') :
    List.SublistForall₂ (Match.Agree same) (matchesOf t elements siblings)
      (StructuralSearch.matchesOf t' elements siblings') := by
  have harrays : SiblingsAlike roles same siblings.toArray siblings'.toArray := hsiblings
  have hslots : FoundAgain (Log.Agree same)
      (Pattern.outcomesInTurn t (inNoSlot elements) siblings.toArray)
      (Pattern.outcomesInTurn t' (inNoSlot elements) siblings'.toArray) := by
    refine FoundAgain.inTurn (List.forall₂_same.2 (List.forall_mem_map.2 fun p hp => ?_))
    exact h.outcomes p (helements.of_mem p hp) Role.root harrays
  refine sublistForall₂_map (R := Outcome.Agree (Log.Agree same))
    (sublistForall₂_filter (hslots 0 .empty .empty .empty) ?_) fun o o' ho => ho.2.ofLog
  intro o o' ho hend
  rw [ho.1, ← hsiblings.length_eq]
  exact hend

/-- Where all that a sequence asks passes on both ways, its matches correspond one by one. -/
theorem results (h : SideBySide roles same t t')
    (hthere : Throughout (PassesOn roles same t t') (occurrencesIn elements))
    (hback : Throughout (PassesOn (flip roles) (flip same) t' t) (occurrencesIn elements))
    (hsiblings : List.Forall₂ (Child.Alike roles same) siblings siblings') :
    List.Forall₂ (Match.Agree same) ((Matcher.start elements siblings).results t)
      ((Matcher.start elements siblings').results t') := by
  rw [Matcher.results_start, Matcher.results_start]
  obtain ⟨kept, hkept, hsub⟩ := List.sublistForall₂_iff.1 (h.matchesOf hthere hsiblings)
  obtain ⟨kept', hkept', hsub'⟩ := List.sublistForall₂_iff.1 (h.symm.matchesOf hback hsiblings.flip)
  -- Neither place has more matches than the other, so none is left over.
  have hle := hsub'.length_le
  rw [← hkept'.length_eq, hkept.length_eq] at hle
  exact hsub.eq_of_length_le hle ▸ hkept

/-- The same with one node on each side. -/
theorem results_onNode (h : SideBySide roles same t t') {p : CheckedPattern}
    (hthere : Throughout (PassesOn roles same t t') (occurrencesIn p.elements))
    (hback : Throughout (PassesOn (flip roles) (flip same) t' t) (occurrencesIn p.elements))
    (hroot : roles .root .root) {n : ν} {n' : ν'} (hn : same n n') :
    List.Forall₂ (Match.Agree same) ((p.onNode n).results t) ((p.onNode n').results t') :=
  h.results hthere hback (.cons ⟨hroot, hn⟩ .nil)

end SideBySide

end StructuralSearch
