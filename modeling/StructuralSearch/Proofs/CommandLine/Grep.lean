import StructuralSearch.CommandLine.Run
import StructuralSearch.Proofs.CommandLine.Listing
import StructuralSearch.Proofs.CommandLine.Runs
import StructuralSearch.Proofs.StandIn.Arguments
import StructuralSearch.Proofs.StandIn.Record
import StructuralSearch.Proofs.Template.Conversion

/-!
# Searching file by file

What searching comes to in one file depends on that file alone. So a run on several paths prints
what runs on the single paths print, up to the first that fails, and lists what is found before it.
-/
namespace StructuralSearch.CommandLine

open Except (bind_eq_ok_iff mapError_eq_ok_iff)

/-! ## One file -/

section

variable (world : World) (limits : SearchLimits) (source : SourceArguments)

/-- The matches in one file, with a template that is made for it; nothing for a file that is too
large. -/
def searchedIn (path : String) : Except CommandFault (Option (List Finding)) :=
  workAlone world.files limits source (templateOf world source) (searchText world limits) path

theorem inOrder_of_searchedIn {world limits source} {path : String} {found : List Finding}
    (h : searchedIn world limits source path = .ok (some found)) : ∀ m ∈ found, m.InOrder := by
  obtain ⟨text?, -, h⟩ := bind_eq_ok_iff.1 h
  cases text? with
  | none => cases h
  | some text =>
    obtain ⟨language, -, h⟩ := bind_eq_ok_iff.1 h
    obtain ⟨template, -, h⟩ := bind_eq_ok_iff.1 h
    obtain ⟨matched, hmatched, h⟩ := bind_eq_ok_iff.1 h
    obtain ⟨parsed, -, hmatched⟩ := bind_eq_ok_iff.1 hmatched
    cases h
    cases hmatched
    exact fun m hm => Template.inOrder_of_mem_findings hm

/-- What searching one file comes to. -/
def grepFile (json : Bool) (path : String) : GrepReport :=
  match searchedIn world limits source path with
  | .error e => { error := some e }
  | .ok none => {}
  | .ok (some matched) => .ofMatches world json path matched

end

/-! ## File after file -/

namespace GrepReport

variable {r : GrepReport}

theorem andThen_of_error (h : r.error ≠ none) (others : GrepReport) : r.andThen others = r := by
  rw [andThen]
  split
  · rfl
  · rename_i hnone
    exact absurd hnone h

theorem andThen_of_no_error (h : r.error = none) (others : GrepReport) :
    r.andThen others =
      { others with stdout := r.stdout ++ others.stdout, found := r.found + others.found } := by
  rw [andThen, h]

theorem empty_andThen (others : GrepReport) : GrepReport.andThen {} others = others := by
  rw [andThen_of_no_error rfl, String.empty_append, Nat.zero_add]

theorem andThen_empty (r : GrepReport) : r.andThen {} = r := by
  cases h : r.error with
  | some fault => exact andThen_of_error (h ▸ nofun) _
  | none =>
    rw [andThen_of_no_error h, String.append_empty, ← h]
    rfl

/-- What reports come to one after the other, up to the first with an error. -/
def inOrder (rs : List GrepReport) : GrepReport :=
  rs.foldr andThen {}

end GrepReport

theorem grepFiles_eq {world : World} (limits : SearchLimits) {source : SourceArguments}
    (json : Bool) {templates : PerLanguage Template}
    (h : templates.IsFrom (templateOf world source)) (paths : List String) :
    grepFiles world limits source json templates paths =
      .inOrder (paths.map (grepFile world limits source json)) := by
  -- Each file finds other templates made before, so the induction is for all that are as compiled.
  induction paths generalizing templates with
  | nil => rfl
  | cons path rest ih =>
    obtain ⟨later, hlater, hwork⟩ := workOn_eq world.files limits source _
      (searchText world limits) h path
    show _ = (grepFile world limits source json path).andThen
      (.inOrder (rest.map (grepFile world limits source json)))
    rw [grepFiles, hwork, grepFile, searchedIn, ← ih hlater]
    cases workAlone world.files limits source (templateOf world source) (searchText world limits)
        path with
    | error fault => rfl
    | ok matched? =>
      cases matched? with
      | none => exact (GrepReport.empty_andThen _).symm
      | some matched => rfl

/-! ## Runs -/

@[simp] theorem GrepReport.stdout_toReport (r : GrepReport) (files : FileSystem) :
    (r.toReport files).stdout = r.stdout := by
  rw [toReport]
  split <;> rfl

@[simp] theorem GrepReport.stderr_toReport (r : GrepReport) (files : FileSystem) :
    (r.toReport files).stderr = (r.error.map errorLine).getD "" := by
  rw [toReport]
  split <;> rename_i herror <;> rw [herror] <;> rfl

theorem code_ofCount_ne_failureCode (n : Nat) : (Outcome.ofCount n).code ≠ failureCode := by
  cases Outcome.ofCount n <;> decide

theorem code_ofCount_iff (n : Nat) :
    ((Outcome.ofCount n).code = 0 ↔ n ≠ 0) ∧ ((Outcome.ofCount n).code = 1 ↔ n = 0) := by
  rw [Outcome.ofCount]
  split <;> rename_i hn <;> simp [hn, Outcome.code]

theorem GrepReport.code_of_no_error {r : GrepReport} (h : r.error = none) (files : FileSystem) :
    (r.toReport files).code = (Outcome.ofCount r.found).code := by
  rw [toReport, h]

theorem GrepReport.code_eq_failureCode_iff {r : GrepReport} (files : FileSystem) :
    (r.toReport files).code = failureCode ↔ r.error ≠ none := by
  cases h : r.error with
  | some fault =>
    rw [toReport, h]
    exact iff_of_true rfl nofun
  | none =>
    rw [code_of_no_error h]
    exact iff_of_false (code_ofCount_ne_failureCode r.found) fun hne => hne rfl

theorem runCommand_grep (world : World) (limits : SearchLimits) (source : SourceArguments)
    (json : Bool) :
    runCommand world limits (.grep source json) =
      (GrepReport.inOrder (source.paths.map (grepFile world limits source json))).toReport
        world.files := by
  rw [runCommand, grepFiles_eq limits json (PerLanguage.isFrom_empty _)]

/-- The reports up to the first failure, with it. -/
def upToFailure : List Report → List Report
  | [] => []
  | r :: rest => if r.code = failureCode then [r] else r :: upToFailure rest

theorem upToFailure_cons_of_failure {r : Report} (h : r.code = failureCode) (rest : List Report) :
    upToFailure (r :: rest) = [r] :=
  if_pos h

theorem upToFailure_cons_of_success {r : Report} (h : r.code ≠ failureCode) (rest : List Report) :
    upToFailure (r :: rest) = r :: upToFailure rest :=
  if_neg h

/-- Reports in order print what each of them prints, up to the first failure. -/
theorem GrepReport.inOrder_prints (rs : List GrepReport) (files : FileSystem) :
    let parts := upToFailure (rs.map (·.toReport files))
    ((inOrder rs).toReport files).stdout = String.join (parts.map (·.stdout)) ∧
      ((inOrder rs).toReport files).stderr = String.join (parts.map (·.stderr)) := by
  -- The first report ends both sides when it has an error, and else adds what it prints to both.
  induction rs with
  | nil => exact ⟨rfl, rfl⟩
  | cons r rest ih =>
    rw [List.map_cons]
    show ((r.andThen (inOrder rest)).toReport files).stdout = _ ∧
      ((r.andThen (inOrder rest)).toReport files).stderr = _
    by_cases herror : r.error = none
    · have hcode : (r.toReport files).code ≠ failureCode :=
        fun h => (code_eq_failureCode_iff files).1 h herror
      obtain ⟨hstdout, hstderr⟩ := ih
      rw [andThen_of_no_error herror, upToFailure_cons_of_success hcode, List.map_cons,
        List.map_cons, String.join_cons, String.join_cons, ← hstdout, ← hstderr]
      simp [herror]
    · rw [andThen_of_error herror,
        upToFailure_cons_of_failure ((code_eq_failureCode_iff files).2 herror)]
      simp

/-! ## What is listed -/

section

variable (world : World) (limits : SearchLimits) (source : SourceArguments)

/-- The matches in a file, each with the path; none in a file that is too large or cannot be
searched. -/
def matchesIn (path : String) : List (String × Finding) :=
  match searchedIn world limits source path with
  | .ok (some found) => found.map (path, ·)
  | .ok none | .error _ => []

def faultIn? (path : String) : Option CommandFault :=
  match searchedIn world limits source path with
  | .ok _ => none
  | .error fault => some fault

/-- The matches that are reported: those in the files before the first that cannot be searched. -/
def reported (paths : List String) : List (String × Finding) :=
  (paths.takeWhile fun path => (faultIn? world limits source path).isNone).flatMap
    (matchesIn world limits source)

variable {world limits source} {path : String}

theorem faultIn?_eq_none_iff :
    faultIn? world limits source path = none ↔
      ¬∃ fault, searchedIn world limits source path = .error fault := by
  unfold faultIn?
  split
  · rename_i hok
    exact iff_of_true rfl fun ⟨_, herror⟩ => nomatch hok.symm.trans herror
  · rename_i fault herror
    exact iff_of_false nofun fun h => h ⟨fault, herror⟩

theorem matchesIn_of_fault {fault : CommandFault}
    (h : faultIn? world limits source path = some fault) :
    matchesIn world limits source path = [] := by
  unfold faultIn? at h
  unfold matchesIn
  split at h
  · cases h
  · rename_i herror
    rw [herror]

theorem reported_cons_of_fault {fault : CommandFault} (rest : List String)
    (h : faultIn? world limits source path = some fault) :
    reported world limits source (path :: rest) = [] := by
  rw [reported, List.takeWhile_cons, h]
  rfl

theorem reported_cons_of_no_fault (rest : List String)
    (h : faultIn? world limits source path = none) :
    reported world limits source (path :: rest) =
      matchesIn world limits source path ++ reported world limits source rest := by
  rw [reported, List.takeWhile_cons, h]
  exact List.flatMap_cons

theorem of_mem_matchesIn {m : String × Finding} (h : m ∈ matchesIn world limits source path) :
    m.1 = path ∧ m.2.InOrder := by
  unfold matchesIn at h
  split at h
  · rename_i found hfound
    obtain ⟨one, hone, rfl⟩ := List.mem_map.1 h
    exact ⟨rfl, inOrder_of_searchedIn hfound one hone⟩
  all_goals cases h

theorem of_mem_reported {paths : List String} {m : String × Finding}
    (h : m ∈ reported world limits source paths) : m.1 ∈ paths ∧ m.2.InOrder := by
  obtain ⟨path, hpath, hm⟩ := List.mem_flatMap.1 h
  obtain ⟨rfl, horder⟩ := of_mem_matchesIn hm
  exact ⟨(List.takeWhile_sublist _).subset hpath, horder⟩

variable {readRecord : String → Option MatchRecord}
  (hrecords : world.packages.WritesRecords readRecord) (json : Bool)

include hrecords

theorem grepFile_eq (hpath : '\n' ∉ path.toList) :
    grepFile world limits source json path =
      { stdout := listing world json (matchesIn world limits source path)
        found := (matchesIn world limits source path).length
        error := faultIn? world limits source path } := by
  rw [grepFile, matchesIn, faultIn?]
  cases hfound : searchedIn world limits source path with
  | error fault => rfl
  | ok found? =>
    cases found? with
    | none => rfl
    | some found =>
      dsimp only
      rw [GrepReport.ofMatches, showMatches_eq hrecords json hpath (inOrder_of_searchedIn hfound),
        List.length_map]

theorem inOrder_grepFile {paths : List String} (h : ∀ path ∈ paths, '\n' ∉ path.toList) :
    GrepReport.inOrder (paths.map (grepFile world limits source json)) =
      { stdout := listing world json (reported world limits source paths)
        found := (reported world limits source paths).length
        error := paths.findSome? (faultIn? world limits source) } := by
  induction paths with
  | nil => rfl
  | cons path rest ih =>
    obtain ⟨hpath, hrest⟩ := List.forall_mem_cons.1 h
    have hfile : grepFile world limits source json path = _ := grepFile_eq hrecords json hpath
    show (grepFile world limits source json path).andThen
      (.inOrder (rest.map (grepFile world limits source json))) = _
    rw [ih hrest, List.findSome?_cons]
    cases hfault : faultIn? world limits source path with
    | some fault =>
      rw [hfault, matchesIn_of_fault hfault] at hfile
      rw [hfile, GrepReport.andThen_of_error (Option.some_ne_none fault),
        reported_cons_of_fault rest hfault]
    | none =>
      rw [hfault] at hfile
      rw [hfile, GrepReport.andThen_of_no_error rfl, reported_cons_of_no_fault rest hfault,
        listing_append, List.length_append]

/-- What the run prints lists the matches, one on each line, and its status tells how it ended. -/
structure Lists (readRecord : String → Option MatchRecord) (json : Bool)
    (ms : List (String × Finding)) (fails : Prop) (r : Report) : Prop where
  lines : ∃ lines, Text.MadeOfLines r.stdout lines ∧
    List.Forall₂ (Finding.IsToldBy readRecord json) ms lines
  failure : fails → r.code = 2
  success : ¬fails → (r.code = 0 ↔ r.stdout ≠ "")
  noMatch : ¬fails → (r.code = 1 ↔ r.stdout = "")

theorem lists_runCommand (hnames : ∀ path ∈ source.paths, '\n' ∉ path.toList) :
    Lists readRecord json (reported world limits source source.paths)
      (∃ path ∈ source.paths, ∃ fault, searchedIn world limits source path = .error fault)
      (runCommand world limits (.grep source json)) := by
  obtain ⟨lines, hlines, htold⟩ := exists_lines_listing hrecords json
    fun m (hm : m ∈ reported world limits source source.paths) =>
      ⟨hnames m.1 (of_mem_reported hm).1, (of_mem_reported hm).2⟩
  have hempty : listing world json (reported world limits source source.paths) = "" ↔
      (reported world limits source source.paths).length = 0 := by
    rw [hlines.eq_empty_iff, ← List.length_eq_zero_iff, htold.length_eq]
  have hnone : source.paths.findSome? (faultIn? world limits source) = none ↔
      ¬∃ path ∈ source.paths, ∃ fault, searchedIn world limits source path = .error fault := by
    rw [List.findSome?_eq_none_iff]
    simp only [faultIn?_eq_none_iff, not_exists, not_and]
  rw [runCommand_grep, inOrder_grepFile hrecords json hnames]
  constructor
  case lines =>
    rw [GrepReport.stdout_toReport]
    exact ⟨lines, hlines, htold⟩
  case failure =>
    intro hfails
    exact (GrepReport.code_eq_failureCode_iff _).2 fun herror => hnone.1 herror hfails
  case success =>
    intro hsearched
    rw [GrepReport.code_of_no_error (hnone.2 hsearched), GrepReport.stdout_toReport, ne_eq, hempty]
    exact (code_ofCount_iff _).1
  case noMatch =>
    intro hsearched
    rw [GrepReport.code_of_no_error (hnone.2 hsearched), GrepReport.stdout_toReport, hempty]
    exact (code_ofCount_iff _).2

end

/-! ## Runs on files together and alone -/

section

variable {world : World} {globals : GlobalOptions} {source : SourceArguments} {json : Bool}
  {whole : List String} {alone : String → List String}
  (hwhole : world.packages.readArguments whole = .ok ⟨globals, .grep source json⟩)
  (halone : ∀ path ∈ source.paths, world.packages.readArguments (alone path) =
    .ok ⟨globals, .grep { source with paths := [path] } json⟩)

include hwhole halone

/-- When a run cannot be prepared the one on the first file fails as the whole run does. -/
theorem upToFailure_of_prepare_fault (hpaths : world.packages.RequiresPaths) {fault : CommandFault}
    (h : world.prepare ⟨globals, .grep source json⟩ = .error fault) :
    upToFailure (source.paths.map fun path => world.run (alone path)) = [world.run whole] := by
  have hnonempty : source.paths ≠ [] := hpaths whole _ hwhole
  obtain ⟨path, rest, hsplit⟩ := List.exists_cons_of_ne_nil hnonempty
  have hfirst := World.run_of_prepare_fault (halone path (hsplit ▸ List.mem_cons_self)) h
  have hall := World.run_of_prepare_fault hwhole h
  rw [hsplit, List.map_cons, upToFailure_cons_of_failure (congrArg Report.code hfirst), hfirst,
    hall]

theorem run_prints (hpaths : world.packages.RequiresPaths) :
    let parts := upToFailure (source.paths.map fun path => world.run (alone path))
    (world.run whole).stdout = String.join (parts.map (·.stdout)) ∧
      (world.run whole).stderr = String.join (parts.map (·.stderr)) := by
  cases hprepared : world.prepare ⟨globals, .grep source json⟩ with
  | error fault =>
    rw [upToFailure_of_prepare_fault hwhole halone hpaths hprepared]
    simp
  | ok settings =>
    have hparts : (source.paths.map fun path => world.run (alone path)) =
        (source.paths.map (grepFile world settings.limits source json)).map
          (·.toReport world.files) := by
      rw [List.map_map]
      refine List.map_congr_left fun path hpath => ?_
      rw [World.run_of_prepare (halone path hpath) hprepared, runCommand_grep]
      exact congrArg (·.toReport world.files) (GrepReport.andThen_empty _)
    rw [World.run_of_prepare hwhole hprepared, runCommand_grep, hparts]
    exact GrepReport.inOrder_prints _ world.files

end

/-- **Searching file by file.** A run that searches files prints what runs on the single files
print, up to the first that fails. For a reader and for a program it lists the matches in the files
before that one, each on a line of its own, and its status tells whether there were any, or an
error. -/
theorem grep_file_by_file {world : World} (hpaths : world.packages.RequiresPaths)
    {globals : GlobalOptions} {source : SourceArguments} {whole : Bool → List String}
    {alone : Bool → String → List String}
    (hwhole : ∀ json, world.packages.readArguments (whole json) = .ok ⟨globals, .grep source json⟩)
    (halone : ∀ json, ∀ path ∈ source.paths, world.packages.readArguments (alone json path) =
      .ok ⟨globals, .grep { source with paths := [path] } json⟩)
    (hnames : ∀ path ∈ source.paths, '\n' ∉ path.toList) :
    let prepared := world.prepare ⟨globals, .grep source false⟩
    (∀ json,
      let parts := upToFailure (source.paths.map fun path => world.run (alone json path))
      (world.run (whole json)).stdout = String.join (parts.map (·.stdout)) ∧
        (world.run (whole json)).stderr = String.join (parts.map (·.stderr))) ∧
    (∀ settings, prepared = .ok settings →
      ∀ readRecord, world.packages.WritesRecords readRecord → ∀ json,
        Lists readRecord json (reported world settings.limits source source.paths)
          (∃ path ∈ source.paths, ∃ fault,
            searchedIn world settings.limits source path = .error fault)
          (world.run (whole json))) ∧
    ∀ fault, prepared = .error fault →
      ∀ readRecord json, Lists readRecord json [] True (world.run (whole json)) := by
  intro prepared
  refine ⟨fun json => run_prints (hwhole json) (halone json) hpaths,
    fun settings hsettings readRecord hrecords json => ?_, fun fault hfault readRecord json => ?_⟩
  · rw [World.run_of_prepare (hwhole json) hsettings]
    exact lists_runCommand hrecords json hnames
  · rw [World.run_of_prepare_fault (hwhole json) hfault]
    exact ⟨⟨[], rfl, .nil⟩, fun _ => rfl, fun h => absurd trivial h, fun h => absurd trivial h⟩

/-! ## Two files -/

/-- The tree of a text that is one word. -/
def oneWordTree (text : String) : ParseTree :=
  .node ⟨"source_file", true, false, false, false, ⟨0, text.utf8ByteSize⟩, none⟩
    [.node ⟨"identifier", true, false, false, false, ⟨0, text.utf8ByteSize⟩, none⟩ []]

/-- Two files, one of them with two lines, and a parser to which every text is one word. -/
def twoFiles : World where
  parser := fun _ text => some ⟨oneWordTree text, false⟩
  packages := standIns
  environment := []
  files :=
    { entries := [(["one.rs"], .file "a\nb".toByteArray), (["two.rs"], .file "c".toByteArray)] }
  logs := false

/-- Any word is looked for in both files, in one that is not there, and in the first again. -/
def anyWord : SourceArguments where
  pattern := "$WORD"
  language := none
  maxMatches := none
  paths := ["one.rs", "./two.rs", "gone.rs", "one.rs"]

def anyWordTemplate : Template where
  source := "$WORD"
  language := .rust
  metavariables := [⟨"WORD", .single, 0⟩]
  pattern := ⟨[.any (some "WORD")], ["WORD"], rfl⟩

/-- The placeholder as a word of its own. -/
def placeholderWord : SourceNode :=
  let tree := oneWordTree "__HEDDLE_METAVAR_WORD__"
  ⟨"__HEDDLE_METAVAR_WORD__", [(0, tree)], tree.children.head!⟩

open Template in
theorem compile_anyWord : compile twoFiles.parser .rust "$WORD" = .ok anyWordTemplate := by
  have hcode :
      withPlaceholders "$WORD" = .ok ("__HEDDLE_METAVAR_WORD__", [⟨"WORD", .single, 0⟩]) := by
    decide +kernel
  have hword : placeholderWord.metavariable? = some ("WORD", .single) := by decide +kernel
  refine compile_eq_ok_iff.2 ⟨placeholderWord, ?_, ?_, by decide +kernel, rfl, rfl⟩
  · rw [denoted?_of_parse hcode rfl]
    exact SourceNode.peel_of_not_onlyTerminates (by decide +kernel)
  · rw [toPattern_of_found hword, CheckedPattern.ofPattern_eq_ok_iff]
    rfl

theorem searchedIn_anyWord {path text : String}
    (hread : allowedText twoFiles.files {} path = .ok (some text))
    (hlanguage : Language.ofFile path = .ok .rust) :
    searchedIn twoFiles {} anyWord path =
      .ok (some (anyWordTemplate.findings ⟨.rust, text, oneWordTree text, false⟩ 10000)) := by
  have htemplate : templateOf twoFiles anyWord .rust = .ok anyWordTemplate :=
    mapError_eq_ok_iff.2 compile_anyWord
  have hchosen : languageFor anyWord path = .ok .rust := mapError_eq_ok_iff.2 hlanguage
  rw [searchedIn, workAlone, hread]
  show (languageFor anyWord path >>= _) = _
  rw [hchosen]
  show (templateOf twoFiles anyWord .rust >>= _) = _
  rw [htemplate]
  rfl

/-- Each text is a word, and so is the file that is nothing but this word. -/
theorem reported_anyWord :
    (reported twoFiles {} anyWord anyWord.paths).map (fun m => (m.1, m.2.text)) =
      [("one.rs", "a\nb"), ("one.rs", "a\nb"), ("./two.rs", "c"), ("./two.rs", "c")] := by
  have hone : searchedIn twoFiles {} anyWord "one.rs" =
      .ok (some (anyWordTemplate.findings ⟨.rust, "a\nb", oneWordTree "a\nb", false⟩ 10000)) :=
    searchedIn_anyWord rfl (by decide +kernel)
  have htwo : searchedIn twoFiles {} anyWord "./two.rs" =
      .ok (some (anyWordTemplate.findings ⟨.rust, "c", oneWordTree "c", false⟩ 10000)) :=
    searchedIn_anyWord rfl (by decide +kernel)
  have hgone : searchedIn twoFiles {} anyWord "gone.rs" =
      .error (.unreadable "gone.rs" .notFound) := rfl
  show (reported twoFiles {} anyWord ["one.rs", "./two.rs", "gone.rs", "one.rs"]).map _ = _
  rw [reported_cons_of_no_fault _ (by rw [faultIn?, hone]), matchesIn, hone,
    reported_cons_of_no_fault _ (by rw [faultIn?, htwo]), matchesIn, htwo,
    reported_cons_of_fault _ (by rw [faultIn?, hgone])]
  decide +kernel

def anyWordArguments (json : Bool) (paths : List String) : List String :=
  "grep" :: (if json then ["--json"] else []) ++ ["-p", "$WORD"] ++ paths

theorem any_word_file_by_file :
    let parts := upToFailure
      (anyWord.paths.map fun path => twoFiles.run (anyWordArguments false [path]))
    (twoFiles.run (anyWordArguments false anyWord.paths)).stdout =
        String.join (parts.map (·.stdout)) ∧
      Lists StandIn.Record.ofJson? true (reported twoFiles {} anyWord anyWord.paths)
        (∃ path ∈ anyWord.paths, ∃ fault, searchedIn twoFiles {} anyWord path = .error fault)
        (twoFiles.run (anyWordArguments true anyWord.paths)) ∧
      (reported twoFiles {} anyWord anyWord.paths).map (fun m => (m.1, m.2.text)) =
        [("one.rs", "a\nb"), ("one.rs", "a\nb"), ("./two.rs", "c"), ("./two.rs", "c")] ∧
      (twoFiles.run (anyWordArguments true anyWord.paths)).code = 2 := by
  have hwhole : ∀ json, twoFiles.packages.readArguments (anyWordArguments json anyWord.paths) =
      .ok ⟨{}, .grep anyWord json⟩ := by
    intro json
    cases json <;> rfl
  have halone : ∀ json, ∀ path ∈ anyWord.paths,
      twoFiles.packages.readArguments (anyWordArguments json [path]) =
        .ok ⟨{}, .grep { anyWord with paths := [path] } json⟩ := by
    intro json
    simp only [anyWord, List.forall_mem_cons]
    cases json <;> exact ⟨rfl, rfl, rfl, rfl, nofun⟩
  have hnames : ∀ path ∈ anyWord.paths, '\n' ∉ path.toList := by decide
  obtain ⟨hprinted, hlists, -⟩ :=
    @grep_file_by_file twoFiles StandIn.requiresPaths_standIns {} anyWord
      (fun json => anyWordArguments json anyWord.paths)
      (fun json path => anyWordArguments json [path]) hwhole halone hnames
  have hobjects := hlists {} rfl StandIn.Record.ofJson? StandIn.Record.writesRecords_standIns true
  have hcode := hobjects.failure ⟨"gone.rs", by decide, _, rfl⟩
  exact ⟨(hprinted false).1, hobjects, reported_anyWord, hcode⟩

end StructuralSearch.CommandLine
