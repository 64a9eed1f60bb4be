import StructuralSearch.CommandLine.Program

/-!
# Runs

When all is prepared a run does what is asked for, and otherwise nothing. Values that were made for
earlier files serve for later ones. As every one of them is the value that would be made anew, a
file is worked on as it would be alone.
-/
namespace StructuralSearch.CommandLine

/-! ## Values made before -/

/-- The values are those that are made for their languages. -/
def PerLanguage.IsFrom {α ε : Type} (values : PerLanguage α) (make : Language → Except ε α) :
    Prop :=
  ∀ language value, values.made.lookup language = some value → make language = .ok value

theorem PerLanguage.isFrom_empty {α ε : Type} (make : Language → Except ε α) :
    ({} : PerLanguage α).IsFrom make :=
  nofun

/-- A value that was made before is as good as one that is made now. -/
theorem PerLanguage.IsFrom.get {α ε : Type} {values : PerLanguage α} {make : Language → Except ε α}
    (h : values.IsFrom make) (language : Language) :
    ∃ later : PerLanguage α, later.IsFrom make ∧
      values.get make language = (make language).map (·, later) := by
  unfold PerLanguage.get
  cases hbefore : values.made.lookup language with
  | some value =>
    rw [h language value hbefore]
    exact ⟨values, h, rfl⟩
  | none =>
    cases hnow : make language with
    | error fault => exact ⟨values, h, rfl⟩
    | ok value =>
      refine ⟨{ made := (language, value) :: values.made }, fun other found hfound => ?_, rfl⟩
      rw [List.lookup_cons] at hfound
      split at hfound
      · rename_i hother
        cases hfound
        rw [eq_of_beq hother]
        exact hnow
      · exact h other found hfound

section

variable {α β : Type} (files : FileSystem) (limits : SearchLimits) (source : SourceArguments)
  (make : Language → Except CommandFault α) (work : α → String → Except CommandFault β)

/-- Works on the text of a file with a value that is made for it. -/
def workAlone (path : String) : Except CommandFault (Option β) := do
  match ← allowedText files limits path with
  | none => .ok none
  | some text => do
    let language ← languageFor source path
    let value ← make language
    let result ← work value text
    .ok (some result)

theorem workOn_eq {values : PerLanguage α} (h : values.IsFrom make) (path : String) :
    ∃ later : PerLanguage α, later.IsFrom make ∧
      workOn files limits source make work values path =
        (workAlone files limits source make work path).map (·, later) := by
  rw [workOn, workAlone]
  cases allowedText files limits path with
  | error fault => exact ⟨values, h, rfl⟩
  | ok text? =>
    cases text? with
    | none => exact ⟨values, h, rfl⟩
    | some text =>
      show ∃ later : PerLanguage α, _ ∧
        (languageFor source path >>= _) = (languageFor source path >>= _).map _
      cases languageFor source path with
      | error fault => exact ⟨values, h, rfl⟩
      | ok language =>
        obtain ⟨later, hlater, hget⟩ := h.get language
        refine ⟨later, hlater, ?_⟩
        show (values.get make language >>= _) = (make language >>= _).map _
        rw [hget]
        cases make language with
        | error fault => rfl
        | ok value =>
          show (work value text >>= _) = (work value text >>= _).map _
          cases work value text <;> rfl

end

/-! ## Preparing -/

section

variable {world : World} {arguments : List String} {given : Arguments}
  (hread : world.packages.readArguments arguments = .ok given)

include hread

theorem World.run_of_prepare {settings : Settings} (h : world.prepare given = .ok settings) :
    world.run arguments = runCommand world settings.limits given.command := by
  simp only [run, hread, h]

theorem World.run_of_prepare_fault {fault : CommandFault} (h : world.prepare given = .error fault) :
    world.run arguments = .ofFault fault world.files := by
  simp only [run, hread, h]

end

end StructuralSearch.CommandLine
