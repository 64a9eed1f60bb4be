import Mathlib.Data.List.Forall2
import StructuralSearch.CommandLine.Run
import StructuralSearch.Proofs.CommandLine.Results

/-!
# Replacing in place

When no two paths lead to the same file and all writes succeed, a run that writes comes to the same
results as one that prints, since what it has written before is in other files. They differ in where
the results go only.
-/
namespace StructuralSearch

namespace CommandLine

open FileSystem (LeadApart SameAt)

/-! ## Putting results back -/

/-- Puts a result in the place of its file, if it changes it. -/
def putBackOne (files : FileSystem) (c : String × Replaced) : FileSystem :=
  if c.2.hasChanges then files.put c.1 c.2.text else files

def putBack (files : FileSystem) (results : List (String × Replaced)) : FileSystem :=
  results.foldl putBackOne files

/-- The results are those of different files, and a file without a replacement keeps its text. -/
structure ResultsFor (files : FileSystem) (results : List (String × Replaced)) : Prop where
  read : ∀ c ∈ results, ∃ old, files.read c.1 = .ok old ∧ (c.2.replacements = 0 → c.2.text = old)
  apart : results.Pairwise fun a b => files.LeadApart a.1 b.1

section

variable {files : FileSystem} {c : String × Replaced} {old : String}

theorem locate_putBackOne (hread : files.read c.1 = .ok old) (p : String) :
    (putBackOne files c).locate p = files.locate p := by
  rw [putBackOne]
  split
  · exact FileSystem.locate_put hread c.2.text p
  · rfl

theorem traits_putBackOne (files : FileSystem) (c : String × Replaced) :
    (putBackOne files c).traits = files.traits := by
  rw [putBackOne]
  split
  · exact FileSystem.traits_put files c.1 c.2.text
  · rfl

theorem takesWrites_putBackOne (hread : files.read c.1 = .ok old) {p : String}
    (h : files.TakesWrites p) : (putBackOne files c).TakesWrites p := by
  intro l hl
  rw [locate_putBackOne hread] at hl
  rw [traits_putBackOne]
  exact h l hl

/-- Writing a result back puts it in the place of its file. -/
theorem writeBack_eq (hread : files.read c.1 = .ok old)
    (h : 0 < c.2.replacements → files.TakesWrites c.1) :
    writeBack files true c.1 c.2 = .ok (putBackOne files c) := by
  rw [writeBack, Bool.true_and, putBackOne]
  split
  · rename_i hchanges
    rw [FileSystem.write_of_takesWrites hread (h (of_decide_eq_true hchanges)), Except.mapError_ok]
  · rfl

theorem sameAt_putBackOne (hread : files.read c.1 = .ok old) {p : String}
    (hapart : files.LeadApart c.1 p) : SameAt files (putBackOne files c) p := by
  rw [putBackOne]
  split
  · exact FileSystem.sameAt_put hread hapart c.2.text
  · exact .refl files p

theorem read_putBackOne (hread : files.read c.1 = .ok old)
    (hsame : c.2.replacements = 0 → c.2.text = old) :
    (putBackOne files c).read c.1 = .ok c.2.text := by
  rw [putBackOne]
  split
  · exact FileSystem.read_put hread c.2.text
  · rename_i hnone
    rw [hsame (Nat.eq_zero_of_not_pos fun h => hnone (decide_eq_true h))]
    exact hread

theorem of_entryAt?_putBackOne_ne (hread : files.read c.1 = .ok old) {l : Location}
    (h : (putBackOne files c).entryAt? l ≠ files.entryAt? l) :
    files.locate c.1 = .ok l ∧ 0 < c.2.replacements := by
  rw [putBackOne] at h
  split at h
  · rename_i hchanges
    obtain ⟨location, hlocation, -⟩ := FileSystem.exists_of_read_eq_ok hread
    by_cases hl : l = location
    · exact ⟨hl ▸ hlocation, of_decide_eq_true hchanges⟩
    · exact absurd (FileSystem.entryAt?_put_of_ne hlocation c.2.text hl) h
  · exact absurd rfl h

variable {results : List (String × Replaced)}

/-- After the first result has been put back, the others are still those of their files. -/
theorem ResultsFor.tail (h : ResultsFor files (c :: results)) :
    ResultsFor (putBackOne files c) results := by
  obtain ⟨⟨old, hread, -⟩, hrest⟩ := List.forall_mem_cons.1 h.read
  obtain ⟨hc, hapart⟩ := List.pairwise_cons.1 h.apart
  refine ⟨fun d hd => ?_, hapart.imp fun hd => ?_⟩
  · rw [(sameAt_putBackOne hread (hc d hd)).read_eq]
    exact hrest d hd
  · intro l hl
    rw [locate_putBackOne hread] at hl ⊢
    exact hd l hl

/-- Files to which no result belongs stay as they were. -/
theorem sameAt_putBack (h : ResultsFor files results) {p : String}
    (hapart : ∀ c ∈ results, files.LeadApart c.1 p) : SameAt files (putBack files results) p := by
  induction results generalizing files with
  | nil => exact .refl files p
  | cons c rest ih =>
    obtain ⟨⟨old, hread, -⟩, -⟩ := List.forall_mem_cons.1 h.read
    obtain ⟨hc, hrest⟩ := List.forall_mem_cons.1 hapart
    refine (sameAt_putBackOne hread hc).trans (ih h.tail fun d hd l hl => ?_)
    rw [locate_putBackOne hread] at hl ⊢
    exact hrest d hd l hl

/-- Each result is what its file holds afterwards. -/
theorem read_putBack (h : ResultsFor files results) :
    ∀ c ∈ results, (putBack files results).read c.1 = .ok c.2.text := by
  induction results generalizing files with
  | nil => exact nofun
  | cons c rest ih =>
    obtain ⟨⟨old, hread, hsame⟩, -⟩ := List.forall_mem_cons.1 h.read
    refine List.forall_mem_cons.2 ⟨?_, ih h.tail⟩
    have hlater : ∀ d ∈ rest, (putBackOne files c).LeadApart d.1 c.1 := by
      intro d hd l hl hl'
      rw [locate_putBackOne hread] at hl hl'
      exact (List.pairwise_cons.1 h.apart).1 d hd l hl' hl
    rw [putBack, List.foldl_cons, ← putBack, (sameAt_putBack h.tail hlater).read_eq]
    exact read_putBackOne hread hsame

/-- What is another after putting back belongs to a result with replacements. -/
theorem exists_of_entryAt?_putBack_ne (h : ResultsFor files results) {l : Location}
    (hl : (putBack files results).entryAt? l ≠ files.entryAt? l) :
    ∃ c ∈ results, files.locate c.1 = .ok l ∧ 0 < c.2.replacements := by
  induction results generalizing files with
  | nil => exact absurd rfl hl
  | cons c rest ih =>
    obtain ⟨⟨old, hread, -⟩, -⟩ := List.forall_mem_cons.1 h.read
    by_cases hone : (putBackOne files c).entryAt? l = files.entryAt? l
    · rw [← hone] at hl
      obtain ⟨d, hd, hlocate, hpos⟩ := ih h.tail hl
      rw [locate_putBackOne hread] at hlocate
      exact ⟨d, List.mem_cons_of_mem c hd, hlocate, hpos⟩
    · exact ⟨c, List.mem_cons_self, of_entryAt?_putBackOne_ne hread hone⟩

end

section

variable (world : World) (limits : SearchLimits) (source : SourceArguments) (replacement : String)

theorem resultsFor_resultsOf {paths : List String} (h : paths.Pairwise world.files.LeadApart) :
    ResultsFor world.files (resultsOf world limits source replacement paths).replaced where
  read c hc := by
    obtain ⟨-, hok⟩ := mem_replaced_resultsOf world limits source replacement hc
    rcases cases_of_replacedIn hok with ⟨hnone, -⟩ | ⟨replaced, text, hsome, -, hread, hsame⟩
    · cases hnone
    · cases hsome
      exact ⟨text, hread, hsame⟩
  apart := List.pairwise_map.1 (h.sublist (sublist_resultsOf world limits source replacement paths))

variable {world source replacement} in
theorem replaceInFiles_inPlace {rules : PerLanguage ReplacementRule}
    (h : rules.IsFrom (ruleOf world source replacement)) {paths : List String}
    (hapart : paths.Pairwise world.files.LeadApart)
    (hwrites : ∀ path ∈ paths, Replaces world limits source replacement path →
      world.files.TakesWrites path) :
    replaceInFiles world limits source replacement true rules paths =
      (resultsOf world limits source replacement paths).report ""
        (putBack world.files (resultsOf world limits source replacement paths).replaced) := by
  -- What a rule is made from does not change with the files, so rules made before stay good.
  induction paths generalizing world rules with
  | nil => rfl
  | cons path rest ih =>
    obtain ⟨hpath, hrest⟩ := List.pairwise_cons.1 hapart
    obtain ⟨hwrite, hwrites⟩ := List.forall_mem_cons.1 hwrites
    obtain ⟨later, hlater, hwork⟩ := workOn_eq world.files limits source _
      (replaceInText world limits) h path
    rw [replaceInFiles, hwork, ← replacedIn, resultsOf]
    cases hone : replacedIn world limits source replacement path with
    | error fault => rfl
    | ok replaced? =>
      rcases cases_of_replacedIn hone with ⟨rfl, -⟩ | ⟨replaced, text, rfl, -, hread, -⟩
      · exact ih hlater hrest hwrites
      · have hsame : ∀ q ∈ rest, SameAt world.files (putBackOne world.files (path, replaced)) q :=
          fun q hq => sameAt_putBackOne hread (hpath q hq)
        have hapart : rest.Pairwise (putBackOne world.files (path, replaced)).LeadApart := by
          refine hrest.imp fun hq l hl => ?_
          rw [locate_putBackOne hread] at hl ⊢
          exact hq l hl
        have hothers := @ih { world with files := putBackOne world.files (path, replaced) } later
          hlater hapart fun q hq hreplaces => by
            rw [Replaces, replacedIn_congr (hsame q hq)] at hreplaces
            exact takesWrites_putBackOne hread (hwrites q hq hreplaces)
        rw [resultsOf_congr world limits source replacement hsame] at hothers
        have hwritten : writeBack world.files true path replaced =
            .ok (putBackOne world.files (path, replaced)) :=
          @writeBack_eq world.files (path, replaced) text hread fun hpos =>
            hwrite ⟨replaced, hone, hpos⟩
        simp only [Except.map, hwritten, hothers]
        exact (Results.report_cons path replaced _ "" _ _).symm

end

/-! ## Printing and writing -/

/-- What a run that prints and a run that writes have in common, and where they differ. -/
structure Agree (world : World) (limits : SearchLimits) (source : SourceArguments)
    (replacement : String) (printed written : Report) : Prop where
  code : written.code = printed.code
  stderr : written.stderr = printed.stderr
  nothing_printed : written.stdout = ""
  nothing_written : printed.files = world.files
  contents : ∃ texts, printed.stdout = String.join texts ∧
    List.Forall₂ (fun path text => written.files.read path = .ok text)
      (processed world limits source replacement source.paths) texts
  changed : ∀ l, written.files.entryAt? l ≠ world.files.entryAt? l →
    ∃ path ∈ processed world limits source replacement source.paths,
      world.files.locate path = .ok l ∧ Replaces world limits source replacement path
  failure : (∃ path ∈ source.paths, Fails world limits source replacement path) →
    printed.code = 2
  success : (¬∃ path ∈ source.paths, Fails world limits source replacement path) →
    (∃ path ∈ source.paths, Replaces world limits source replacement path) →
    printed.code = 0
  noMatch : (¬∃ path ∈ source.paths, Fails world limits source replacement path) →
    (¬∃ path ∈ source.paths, Replaces world limits source replacement path) →
    printed.code = 1
  untouched : ∀ before path after, source.paths = before ++ path :: after →
    Fails world limits source replacement path →
    ∀ p ∈ path :: after, SameAt world.files written.files p

@[simp] theorem ReplaceReport.stdout_toReport (r : ReplaceReport) :
    r.toReport.stdout = r.stdout := by
  rw [toReport]
  split <;> rfl

@[simp] theorem ReplaceReport.files_toReport (r : ReplaceReport) : r.toReport.files = r.files := by
  rw [toReport]
  split <;> rfl

namespace Results

variable (r : Results) (stdout : String) (files : FileSystem)

/-- The exit status and the error output do not depend on where the results went. -/
theorem toReport_report (stdout' : String) (files' : FileSystem) :
    (r.report stdout files).toReport =
      { (r.report stdout' files').toReport with stdout, files } := by
  obtain ⟨replaced, fault⟩ := r
  cases fault <;> rfl

theorem code_of_fault (h : r.fault ≠ none) : (r.report stdout files).toReport.code = 2 := by
  obtain ⟨replaced, fault⟩ := r
  cases fault with
  | none => exact absurd rfl h
  | some fault => rfl

theorem code_of_no_fault (h : r.fault = none) :
    (r.report stdout files).toReport.code =
      (Outcome.ofCount (r.report stdout files).replacements).code := by
  obtain ⟨replaced, fault⟩ := r
  cases h
  rfl

theorem code_of_replacement (h : r.fault = none)
    (hsome : ∃ c ∈ r.replaced, 0 < c.2.replacements) :
    (r.report stdout files).toReport.code = 0 := by
  have hpos : 0 < (r.report stdout files).replacements := replacements_report_pos_iff.2 hsome
  rw [code_of_no_fault r _ _ h, Outcome.ofCount, if_neg (Nat.ne_of_gt hpos)]
  rfl

theorem code_of_no_replacement (h : r.fault = none)
    (hnone : ¬∃ c ∈ r.replaced, 0 < c.2.replacements) :
    (r.report stdout files).toReport.code = 1 := by
  have hzero : ¬0 < (r.report stdout files).replacements := mt replacements_report_pos_iff.1 hnone
  rw [code_of_no_fault r _ _ h, Outcome.ofCount, if_pos (Nat.eq_zero_of_not_pos hzero)]
  rfl

end Results

theorem agree_runCommand (world : World) (limits : SearchLimits) {source : SourceArguments}
    (replacement : String) (hapart : source.paths.Pairwise world.files.LeadApart)
    (hwrites : ∀ path ∈ source.paths, Replaces world limits source replacement path →
      world.files.TakesWrites path) :
    Agree world limits source replacement
      (runCommand world limits (.replace source replacement false))
      (runCommand world limits (.replace source replacement true)) := by
  have hresults := resultsFor_resultsOf world limits source replacement hapart
  have hfault := fault_resultsOf_eq_none_iff world limits source replacement source.paths
  have hmap := map_replaced_resultsOf world limits source replacement source.paths
  rw [runCommand, runCommand, replaceInFiles_printing limits (PerLanguage.isFrom_empty _),
    replaceInFiles_inPlace limits (PerLanguage.isFrom_empty _) hapart hwrites]
  generalize hr : resultsOf world limits source replacement source.paths = r at *
  constructor
  case code => rw [r.toReport_report "" _ r.text world.files]
  case stderr => rw [r.toReport_report "" _ r.text world.files]
  case nothing_printed => exact ReplaceReport.stdout_toReport _
  case nothing_written => exact ReplaceReport.files_toReport _
  case contents =>
    refine ⟨r.replaced.map (·.2.text), ReplaceReport.stdout_toReport _, ?_⟩
    rw [← hmap, List.forall₂_map_left_iff, List.forall₂_map_right_iff, List.forall₂_same,
      ReplaceReport.files_toReport]
    exact read_putBack hresults
  case changed =>
    intro l hl
    rw [ReplaceReport.files_toReport] at hl
    obtain ⟨c, hc, hlocate, hpos⟩ := exists_of_entryAt?_putBack_ne hresults hl
    refine ⟨c.1, hmap ▸ List.mem_map_of_mem hc, hlocate, c.2, ?_, hpos⟩
    exact (mem_replaced_resultsOf world limits source replacement (hr ▸ hc)).2
  case failure =>
    rintro ⟨path, hpath, hfails⟩
    exact r.code_of_fault _ _ fun h => hfault.1 h path hpath hfails
  case success =>
    rintro hnone ⟨path, hpath, replaced, hok, hpos⟩
    have hfault := hfault.2 fun p hp h => hnone ⟨p, hp, h⟩
    subst hr
    have hmem := mem_replaced_of_fault_eq_none world limits source replacement hfault hpath hok
    exact Results.code_of_replacement _ _ _ hfault ⟨_, hmem, hpos⟩
  case noMatch =>
    intro hnone hno
    have hfault := hfault.2 fun p hp h => hnone ⟨p, hp, h⟩
    refine r.code_of_no_replacement _ _ hfault ?_
    rintro ⟨c, hc, hpos⟩
    subst hr
    obtain ⟨hpath, hok⟩ := mem_replaced_resultsOf world limits source replacement hc
    exact hno ⟨c.1, hpath, c.2, hok, hpos⟩
  case untouched =>
    intro before path after hpaths hfails p hp
    rw [ReplaceReport.files_toReport]
    refine sameAt_putBack hresults fun c hc => ?_
    rw [hpaths] at hr hapart
    subst hr
    have hbefore := replaced_resultsOf_append world limits source replacement hfails c hc
    exact (List.pairwise_append.1 hapart).2.2 c.1 hbefore p hp

/-- **Printing and writing agree.** When settings cannot be loaded or the log cannot be started both
runs fail alike and do nothing. Otherwise, if no two paths lead to one file and nothing stands
against writing to the files with a replacement, both end with the same status and the same error
output. One prints what the files processed hold after the other, which prints nothing and changes
only files with a replacement; after a file that fails none is changed. -/
theorem run_in_place {world : World} {printing writing : List String} {globals : GlobalOptions}
    {source : SourceArguments} {replacement : String}
    (hprinting : world.packages.readArguments printing =
      .ok ⟨globals, .replace source replacement false⟩)
    (hwriting : world.packages.readArguments writing =
      .ok ⟨globals, .replace source replacement true⟩)
    (hapart : source.paths.Pairwise world.files.LeadApart) :
    let prepared := world.prepare ⟨globals, .replace source replacement false⟩
    let printed := world.run printing
    let written := world.run writing
    (∀ settings, prepared = .ok settings →
      (∀ path ∈ source.paths, Replaces world settings.limits source replacement path →
        world.files.TakesWrites path) →
      Agree world settings.limits source replacement printed written) ∧
    ∀ fault, prepared = .error fault →
      written = printed ∧ printed.code = 2 ∧ printed.stdout = "" ∧ printed.files = world.files := by
  intro prepared printed written
  constructor
  · intro settings hsettings hwrites
    have hprinted : printed = _ := World.run_of_prepare hprinting hsettings
    have hwritten : written = _ := World.run_of_prepare hwriting hsettings
    rw [hprinted, hwritten]
    exact agree_runCommand world settings.limits replacement hapart hwrites
  · intro fault hfault
    have hprinted : printed = _ := World.run_of_prepare_fault hprinting hfault
    have hwritten : written = _ := World.run_of_prepare_fault hwriting hfault
    rw [hprinted, hwritten]
    exact ⟨rfl, rfl, rfl, rfl⟩

/-- Two files of one word each, and a parser to which every text is one word. -/
def twoWords : World where
  parser := fun _ text =>
    let word : ParseTree :=
      .node ⟨"identifier", true, false, false, false, ⟨0, text.utf8ByteSize⟩, none⟩ []
    some ⟨.node ⟨"source_file", true, false, false, false, ⟨0, text.utf8ByteSize⟩, none⟩ [word],
      false⟩
  packages := standIns
  environment := []
  files := { entries := [(["one.rs"], .file "a".toByteArray), (["two.rs"], .file "b".toByteArray)] }
  logs := false

/-- The word of one of the files is looked for there, in the other one, and in a file that is not
there. -/
def oneWord : SourceArguments where
  pattern := "a"
  language := none
  maxMatches := none
  paths := ["one.rs", "./two.rs", "gone.rs"]

def oneWordArguments : List String :=
  ["-p", "a", "-r", "c", "one.rs", "./two.rs", "gone.rs"]

theorem one_word_in_place :
    Agree twoWords {} oneWord "c" (twoWords.run ("rewrite" :: oneWordArguments))
      (twoWords.run ("rewrite" :: "--in-place" :: oneWordArguments)) ∧
      (twoWords.run ("rewrite" :: oneWordArguments)).code = 2 := by
  have hprinting : twoWords.packages.readArguments ("rewrite" :: oneWordArguments) =
      .ok ⟨{}, .replace oneWord "c" false⟩ := by rfl
  have hwriting : twoWords.packages.readArguments ("rewrite" :: "--in-place" :: oneWordArguments) =
      .ok ⟨{}, .replace oneWord "c" true⟩ := by rfl
  have hone : twoWords.files.locate "one.rs" = .ok ["one.rs"] := by rfl
  have htwo : twoWords.files.locate "./two.rs" = .ok ["two.rs"] := by rfl
  have hgone : twoWords.files.locate "gone.rs" = .error .notFound := by rfl
  have hapart : oneWord.paths.Pairwise twoWords.files.LeadApart := by
    simp [oneWord, FileSystem.LeadApart, hone, htwo, hgone]
  have hagree := (run_in_place hprinting hwriting hapart).1 {} (by rfl) fun _ _ _ _ _ => rfl
  exact ⟨hagree, hagree.failure ⟨"gone.rs", by decide, _, rfl⟩⟩

end CommandLine
end StructuralSearch
