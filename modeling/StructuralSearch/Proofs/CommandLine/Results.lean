import Mathlib.Algebra.GroupWithZero.Nat
import StructuralSearch.Proofs.CommandLine.Runs
import StructuralSearch.Proofs.Except
import StructuralSearch.Proofs.Files.Writing

/-!
# What replacing in files comes to

Replacing goes from file to file up to the first that fails, and passes over files that are too
large. What it comes to in one file depends on that file alone. A run that prints shows the results
one after the other.
-/
namespace StructuralSearch

open Except (bind_eq_ok_iff mapError_eq_ok_iff)

/-- Without a match a text stays what it was. -/
theorem ReplacementRule.text_of_apply {parser : Parser} {language : Language} {limit : Nat}
    {rule : ReplacementRule} {source : String} {replaced : Replaced}
    (h : rule.apply parser language limit source = .ok replaced)
    (hnone : replaced.replacements = 0) : replaced.text = source := by
  unfold apply at h
  split at h
  · cases h
  · obtain ⟨parsed, -, h⟩ := bind_eq_ok_iff.1 h
    obtain ⟨text, htext, h⟩ := bind_eq_ok_iff.1 h
    cases h
    rw [List.eq_nil_of_length_eq_zero hnone] at htext
    exact (Except.ok.inj htext).symm

namespace CommandLine

open FileSystem (SameAt)

/-- The file is there, and is not too large. -/
def isAdmitted (files : FileSystem) (limits : SearchLimits) (path : String) : Bool :=
  match files.size path with
  | .ok size => limits.allows size
  | .error _ => false

/-- A file that can be looked at is too large, or its text is read. -/
theorem cases_of_allowedText {files : FileSystem} {limits : SearchLimits} {path : String}
    {text? : Option String} (h : allowedText files limits path = .ok text?) :
    text? = none ∧ isAdmitted files limits path = false ∨
      ∃ text, text? = some text ∧ isAdmitted files limits path = true ∧
        files.read path = .ok text := by
  obtain ⟨size, hsize, h⟩ := bind_eq_ok_iff.1 h
  rw [isAdmitted, mapError_eq_ok_iff.1 hsize]
  split at h
  · rename_i hallowed
    obtain ⟨text, htext, h⟩ := bind_eq_ok_iff.1 h
    cases h
    exact .inr ⟨text, rfl, hallowed, mapError_eq_ok_iff.1 htext⟩
  · rename_i hlarge
    cases h
    exact .inl ⟨rfl, Bool.eq_false_iff.2 hlarge⟩

/-- One file after replacing, with a rule that is made for it; nothing for a file that is too
large. -/
def replacedIn (world : World) (limits : SearchLimits) (source : SourceArguments)
    (replacement path : String) : Except CommandFault (Option Replaced) :=
  workAlone world.files limits source (ruleOf world source replacement) (replaceInText world limits)
    path

section

variable {world : World} {limits : SearchLimits} {source : SourceArguments}
  {replacement path : String}

/-- Replacing in a file that does not fail passes it over as too large, or makes a text of the one
that it has. -/
theorem cases_of_replacedIn {replaced? : Option Replaced}
    (h : replacedIn world limits source replacement path = .ok replaced?) :
    replaced? = none ∧ isAdmitted world.files limits path = false ∨
      ∃ replaced text, replaced? = some replaced ∧ isAdmitted world.files limits path = true ∧
        world.files.read path = .ok text ∧
        (replaced.replacements = 0 → replaced.text = text) := by
  obtain ⟨text?, htext, h⟩ := bind_eq_ok_iff.1 h
  rcases cases_of_allowedText htext with ⟨rfl, hlarge⟩ | ⟨text, rfl, hadmitted, hread⟩
  · cases h
    exact .inl ⟨rfl, hlarge⟩
  · obtain ⟨language, -, h⟩ := bind_eq_ok_iff.1 h
    obtain ⟨rule, -, h⟩ := bind_eq_ok_iff.1 h
    obtain ⟨replaced, happly, h⟩ := bind_eq_ok_iff.1 h
    cases h
    refine .inr ⟨replaced, text, rfl, hadmitted, hread, ?_⟩
    exact ReplacementRule.text_of_apply (mapError_eq_ok_iff.1 happly)

/-- Replacing in a file depends on no other file. -/
theorem replacedIn_congr {files : FileSystem} (h : SameAt world.files files path) :
    replacedIn { world with files } limits source replacement path =
      replacedIn world limits source replacement path := by
  have htext : allowedText files limits path = allowedText world.files limits path := by
    rw [allowedText, allowedText, h.size_eq, h.read_eq]
  show (allowedText files limits path >>= _) = (allowedText world.files limits path >>= _)
  rw [htext]
  rfl

end

/-! ## File after file -/

/-- The report on files of which the first came to `replaced`. -/
def ReplaceReport.after (others : ReplaceReport) (shown : String) (replaced : Replaced) :
    ReplaceReport :=
  { others with
    stdout := shown ++ others.stdout
    replacements := replaced.replacements + others.replacements
    changed := (if replaced.hasChanges then 1 else 0) + others.changed }

/-- What replacing comes to: each file replaced in, with its result, and the error that ended it. -/
structure Results where
  replaced : List (String × Replaced)
  fault : Option CommandFault

namespace Results

def cons (path : String) (replaced : Replaced) (others : Results) : Results :=
  { others with replaced := (path, replaced) :: others.replaced }

/-- The results one after the other. -/
def text (r : Results) : String :=
  String.join (r.replaced.map (·.2.text))

@[simp] theorem text_cons (path : String) (replaced : Replaced) (others : Results) :
    (others.cons path replaced).text = replaced.text ++ others.text :=
  String.join_cons

/-- What is reported of the results, apart from where they went. -/
def report (r : Results) (stdout : String) (files : FileSystem) : ReplaceReport where
  stdout := stdout
  replacements := (r.replaced.map (·.2.replacements)).sum
  changed := r.replaced.countP (·.2.hasChanges)
  files := files
  error := r.fault

theorem report_cons (path : String) (replaced : Replaced) (others : Results)
    (shown stdout : String) (files : FileSystem) :
    (others.cons path replaced).report (shown ++ stdout) files =
      (others.report stdout files).after shown replaced := by
  have hchanged : (others.cons path replaced).replaced.countP (·.2.hasChanges) =
      (if replaced.hasChanges then 1 else 0) + others.replaced.countP (·.2.hasChanges) :=
    List.countP_cons.trans (Nat.add_comm _ _)
  rw [report, hchanged]
  rfl

end Results

/-! ## The results of a run -/

section

variable (world : World) (limits : SearchLimits) (source : SourceArguments) (replacement : String)

/-- Replaces in files in order, each as it was at first. -/
def resultsOf : List String → Results
  | [] => ⟨[], none⟩
  | path :: rest =>
    match replacedIn world limits source replacement path with
    | .error fault => ⟨[], some fault⟩
    | .ok none => resultsOf rest
    | .ok (some replaced) => (resultsOf rest).cons path replaced

theorem resultsOf_congr {files : FileSystem} {paths : List String}
    (h : ∀ path ∈ paths, SameAt world.files files path) :
    resultsOf { world with files } limits source replacement paths =
      resultsOf world limits source replacement paths := by
  induction paths with
  | nil => rfl
  | cons path rest ih =>
    obtain ⟨hpath, hrest⟩ := List.forall_mem_cons.1 h
    rw [resultsOf, resultsOf, replacedIn_congr hpath, ih hrest]

variable {world source replacement} in
theorem replaceInFiles_printing {rules : PerLanguage ReplacementRule}
    (h : rules.IsFrom (ruleOf world source replacement)) (paths : List String) :
    replaceInFiles world limits source replacement false rules paths =
      (resultsOf world limits source replacement paths).report
        (resultsOf world limits source replacement paths).text world.files := by
  -- Each file finds other rules made before, so the induction is for all that are as made anew.
  induction paths generalizing rules with
  | nil => rfl
  | cons path rest ih =>
    obtain ⟨later, hlater, hwork⟩ := workOn_eq world.files limits source _
      (replaceInText world limits) h path
    rw [replaceInFiles, hwork, resultsOf, replacedIn]
    cases workAlone world.files limits source (ruleOf world source replacement)
        (replaceInText world limits) path with
    | error fault => rfl
    | ok replaced? =>
      cases replaced? with
      | none => exact ih hlater
      | some replaced =>
        have hprinted := congrArg (·.after replaced.text replaced) (ih hlater)
        rw [← Results.report_cons path, ← Results.text_cons path] at hprinted
        exact hprinted

theorem mem_replaced_resultsOf {paths : List String} {c : String × Replaced}
    (hc : c ∈ (resultsOf world limits source replacement paths).replaced) :
    c.1 ∈ paths ∧ replacedIn world limits source replacement c.1 = .ok (some c.2) := by
  induction paths with
  | nil => cases hc
  | cons path rest ih =>
    rw [resultsOf] at hc
    cases hpath : replacedIn world limits source replacement path with
    | error fault =>
      rw [hpath] at hc
      cases hc
    | ok replaced? =>
      rw [hpath] at hc
      cases replaced? with
      | none => exact (ih hc).imp_left (List.mem_cons_of_mem path)
      | some replaced =>
        rcases List.mem_cons.1 hc with rfl | hc
        · exact ⟨List.mem_cons_self, hpath⟩
        · exact (ih hc).imp_left (List.mem_cons_of_mem path)

theorem sublist_resultsOf (paths : List String) :
    ((resultsOf world limits source replacement paths).replaced.map (·.1)).Sublist paths := by
  fun_induction resultsOf world limits source replacement paths with
  | case1 => exact List.nil_sublist []
  | case2 path rest => exact List.nil_sublist _
  | case3 path rest _ ih => exact ih.cons path
  | case4 path rest _ _ ih => exact ih.cons_cons path

/-- Replacing in the file fails. -/
def Fails (path : String) : Prop :=
  ∃ fault, replacedIn world limits source replacement path = .error fault

/-- There is something to replace in the file. -/
def Replaces (path : String) : Prop :=
  ∃ replaced, replacedIn world limits source replacement path = .ok (some replaced) ∧
    0 < replaced.replacements

/-- The files before the first that fails, without those that are too large. -/
def processed (paths : List String) : List String :=
  (paths.takeWhile fun path => (replacedIn world limits source replacement path).isOk).filter
    (isAdmitted world.files limits)

theorem map_replaced_resultsOf (paths : List String) :
    (resultsOf world limits source replacement paths).replaced.map (·.1) =
      processed world limits source replacement paths := by
  induction paths with
  | nil => rfl
  | cons path rest ih =>
    rw [resultsOf, processed, List.takeWhile_cons]
    cases hpath : replacedIn world limits source replacement path with
    | error fault => rfl
    | ok replaced? =>
      show _ = (path :: rest.takeWhile _).filter _
      rcases cases_of_replacedIn hpath with ⟨rfl, hlarge⟩ | ⟨replaced, -, rfl, hadmitted, -⟩
      · rw [List.filter_cons_of_neg (Bool.eq_false_iff.1 hlarge)]
        exact ih
      · rw [List.filter_cons_of_pos hadmitted]
        exact congrArg (path :: ·) ih

variable {world limits source replacement} in
theorem not_fails_of_ok {path : String} {replaced? : Option Replaced}
    (h : replacedIn world limits source replacement path = .ok replaced?) :
    ¬Fails world limits source replacement path := by
  rintro ⟨fault, hfault⟩
  cases h.symm.trans hfault

theorem fault_resultsOf_eq_none_iff (paths : List String) :
    (resultsOf world limits source replacement paths).fault = none ↔
      ∀ path ∈ paths, ¬Fails world limits source replacement path := by
  fun_induction resultsOf world limits source replacement paths with
  | case1 => exact iff_of_true rfl nofun
  | case2 path rest fault hpath =>
    exact iff_of_false nofun fun h => h path List.mem_cons_self ⟨fault, hpath⟩
  | case3 path rest hpath ih =>
    rw [List.forall_mem_cons]
    exact ih.trans (and_iff_right (not_fails_of_ok hpath)).symm
  | case4 path rest replaced hpath ih =>
    rw [List.forall_mem_cons]
    exact ih.trans (and_iff_right (not_fails_of_ok hpath)).symm

/-- Where nothing fails every result counts. -/
theorem mem_replaced_of_fault_eq_none {paths : List String}
    (h : (resultsOf world limits source replacement paths).fault = none) {path : String}
    (hpath : path ∈ paths) {replaced : Replaced}
    (hok : replacedIn world limits source replacement path = .ok (some replaced)) :
    (path, replaced) ∈ (resultsOf world limits source replacement paths).replaced := by
  fun_induction resultsOf world limits source replacement paths with
  | case1 => cases hpath
  | case2 => cases h
  | case3 first rest hfirst ih =>
    rcases List.mem_cons.1 hpath with rfl | hpath
    · cases hfirst.symm.trans hok
    · exact ih h hpath
  | case4 first rest other hfirst ih =>
    rcases List.mem_cons.1 hpath with rfl | hpath
    · cases hfirst.symm.trans hok
      exact List.mem_cons_self
    · exact List.mem_cons_of_mem _ (ih h hpath)

/-- Nothing is replaced from the first file on that fails. -/
theorem replaced_resultsOf_append {before after : List String} {path : String}
    (h : Fails world limits source replacement path) :
    ∀ c ∈ (resultsOf world limits source replacement (before ++ path :: after)).replaced,
      c.1 ∈ before := by
  induction before with
  | nil =>
    obtain ⟨fault, hfault⟩ := h
    rw [List.nil_append, resultsOf, hfault]
    exact nofun
  | cons first rest ih =>
    rw [List.cons_append, resultsOf]
    cases replacedIn world limits source replacement first with
    | error fault => exact nofun
    | ok replaced? =>
      cases replaced? with
      | none => exact fun c hc => List.mem_cons_of_mem first (ih c hc)
      | some replaced =>
        refine List.forall_mem_cons.2 ⟨List.mem_cons_self, ?_⟩
        exact fun c hc => List.mem_cons_of_mem first (ih c hc)

/-- Something is replaced when one of the results has a replacement. -/
theorem replacements_report_pos_iff {r : Results} {stdout : String} {files : FileSystem} :
    0 < (r.report stdout files).replacements ↔ ∃ c ∈ r.replaced, 0 < c.2.replacements := by
  show 0 < (r.replaced.map (·.2.replacements)).sum ↔ _
  rw [List.sum_pos_iff_exists_pos_nat]
  constructor
  · rintro ⟨_, hmem, hpos⟩
    obtain ⟨c, hc, rfl⟩ := List.mem_map.1 hmem
    exact ⟨c, hc, hpos⟩
  · rintro ⟨c, hc, hpos⟩
    exact ⟨_, List.mem_map_of_mem hc, hpos⟩

end

end CommandLine
end StructuralSearch
