import StructuralSearch.CommandLine.Run
import StructuralSearch.Proofs.Except

/-!
# The stand-in for the reader of arguments

However arguments are read, a request to work on files names some.
-/
namespace StructuralSearch.StandIn

open CommandLine
open Except (bind_eq_ok_iff)

/-- A request for a command that works on files names some. -/
def Request.NamesPaths : Request → Prop
  | .run arguments => arguments.command.NamesPaths
  | _ => True

theorem Given.paths_of_source {g : Given} {pattern : String} {source : SourceArguments}
    (h : g.source pattern = .ok source) : source.paths ≠ [] := by
  unfold Given.source at h
  split at h
  · cases h
  · rename_i hpaths
    cases h
    exact fun hnil => hpaths (List.isEmpty_iff.2 hnil)

theorem namesPaths_of_finish {outer g : Given} {command : Option CommandName} {request : Request}
    (h : finish outer command g = .ok request) : request.NamesPaths := by
  cases command with
  | none => cases h
  | some name =>
    obtain ⟨settled, -, h⟩ := bind_eq_ok_iff.1 h
    obtain ⟨command, hcommand, h⟩ := bind_eq_ok_iff.1 h
    obtain ⟨outer, -, h⟩ := bind_eq_ok_iff.1 h
    cases h
    obtain ⟨pattern, -, hcommand⟩ := bind_eq_ok_iff.1 hcommand
    cases name with
    | grep =>
      obtain ⟨source, hsource, hcommand⟩ := bind_eq_ok_iff.1 hcommand
      cases hcommand
      exact Given.paths_of_source hsource
    | replace =>
      obtain ⟨replacement, -, hcommand⟩ := bind_eq_ok_iff.1 hcommand
      obtain ⟨source, hsource, hcommand⟩ := bind_eq_ok_iff.1 hcommand
      cases hcommand
      exact Given.paths_of_source hsource
    | explain =>
      obtain ⟨language, -, hcommand⟩ := bind_eq_ok_iff.1 hcommand
      cases hcommand
      trivial

theorem namesPaths_of_readFrom {outer g : Given} {command : Option CommandName}
    {arguments : List String} {request : Request}
    (h : readFrom outer command g arguments = .ok request) : request.NamesPaths := by
  fun_induction readFrom outer command g arguments generalizing request with
  | case1 => exact namesPaths_of_finish h
  | case2 | case3 | case4 | case6 => cases h
  | case5 =>
    obtain ⟨settled, -, h⟩ := bind_eq_ok_iff.1 h
    obtain ⟨added, -, h⟩ := bind_eq_ok_iff.1 h
    exact namesPaths_of_finish h
  | case7 _ _ _ _ _ _ _ _ ih => exact ih h
  | case8 _ _ _ _ _ _ _ ih =>
    obtain ⟨settled, -, h⟩ := bind_eq_ok_iff.1 h
    obtain ⟨added, -, h⟩ := bind_eq_ok_iff.1 h
    exact ih added h
  | case9 _ _ g | case10 _ _ g =>
    cases hsettled : g.settle <;> rw [hsettled] at h <;> cases h
    trivial
  | case11 _ _ _ _ _ _ _ _ _ _ ih =>
    obtain ⟨settled, -, h⟩ := bind_eq_ok_iff.1 h
    obtain ⟨set, -, h⟩ := bind_eq_ok_iff.1 h
    exact ih set h
  | case12 _ _ _ _ rest _ _ _ _ ihvalue ihflag =>
    obtain ⟨settled, -, h⟩ := bind_eq_ok_iff.1 h
    split at h
    · cases rest with
      | nil => cases h
      | cons value rest =>
        dsimp only at h
        split at h
        · cases h
        · exact ihvalue settled h
    · obtain ⟨set, -, h⟩ := bind_eq_ok_iff.1 h
      exact ihflag set h

theorem requiresPaths_standIns : standIns.RequiresPaths := by
  intro arguments given h
  change readArguments arguments = .ok given at h
  unfold readArguments at h
  split at h
  · rename_i hread
    cases h
    exact namesPaths_of_readFrom hread
  all_goals cases h

end StructuralSearch.StandIn
