import DetectionRules.CommandLine.Batch
import DetectionRules.Proofs.CommandLine.Files

/-!
The files that a batch leaves. A translated rule is written under the stem of its
source, and nothing else of the path of the source counts. So each file holds its
rule if and only if no two rules that became different texts share a stem.
-/

namespace DetectionRules.CommandLine

namespace RuleFile

/-- The stem under which a translated rule is written. -/
def outputStem (source : String) : String :=
  ((Path.stem? source).filter fun stem => stem != "" && stem != "-").getD "rule"

def outputName (source : String) (target : Format) : String :=
  outputStem source ++ "." ++ target.fileExtension

theorem output_name_eq_iff {first second : String} {target : Format} :
    outputName first target = outputName second target ↔ outputStem first = outputStem second := by
  rw [outputName, outputName, String.append_left_inj, String.append_left_inj]

example : outputName "rules/a/x.spl" .sigma = outputName "rules/b/x.kql" .sigma := by decide +kernel

theorem piece_whole {path piece : String} (member : piece ∈ Path.pieces path) :
    '/' ∉ piece.toList := by
  obtain ⟨part, inside, rfl⟩ := List.mem_map.mp member
  intro slash
  rw [String.toList_ofList] at slash
  have clean := Text.clean_of_split_when inside '/' slash
  simp at clean

theorem stem_of_name_subset (name : String) :
    (Path.splitName name).1.toList ⊆ name.toList := by
  rw [Path.splitName]
  split
  · exact List.Subset.refl _
  · intro c member
    rw [String.toList_ofList, List.mem_reverse] at member
    exact List.mem_reverse.mp (List.mem_of_mem_drop member)

theorem stem_whole {source stem : String} (found : Path.stem? source = some stem) :
    '/' ∉ stem.toList := by
  obtain ⟨name, named, rfl⟩ := Option.map_eq_some_iff.mp found
  have last := (Option.filter_eq_some_iff.mp named).1
  have piece := (List.mem_filter.mp (List.mem_of_getLast? last)).1
  exact fun slash => piece_whole piece (stem_of_name_subset name slash)

theorem output_stem_whole (source : String) : '/' ∉ (outputStem source).toList := by
  rw [outputStem]
  cases found : (Path.stem? source).filter fun stem => stem != "" && stem != "-" with
  | none => decide
  | some stem => exact stem_whole (Option.filter_eq_some_iff.mp found).1

theorem is_name_output (source : String) (target : Format) :
    Path.IsName (outputName source target) := by
  have extension : '/' ∉ target.fileExtension.toList ∧ 3 ≤ target.fileExtension.length := by
    cases target <;> decide
  have long : 4 ≤ (outputName source target).length := by
    simp only [outputName, String.length_append]
    have point : ".".length = 1 := by decide
    omega
  refine ⟨?_, ?_, ?_, ?_⟩
  · rw [outputName, String.toList_append, String.toList_append, List.mem_append, List.mem_append]
    rintro ((stem | point) | ending)
    · exact output_stem_whole source stem
    · exact absurd point (by decide)
    · exact extension.1 ending
  all_goals
    intro same
    rw [same] at long
    exact absurd long (by decide)

end RuleFile

namespace BatchCommand

/-- What is written for a result. -/
def output? (result : BatchResult) : Option String :=
  if result.job.isSuccess then result.job.translation else none

def outputs (folder : String) (target : Format) (results : List BatchResult) :
    List (String × String) :=
  results.filterMap fun result =>
    (output? result).map fun text => (RuleFile.translatedPath folder result.id target, text)

end BatchCommand

namespace Files

def writeAll (files : Files) : List (String × String) → Except FileFault Files
  | [] => .ok files
  | (path, text) :: rest => do
      let files ← files.write path text
      files.writeAll rest

/-- Different ones of the paths never lead to one place. -/
def Apart (paths : List String) : Prop :=
  ∀ first ∈ paths, ∀ second ∈ paths, ∀ (files : Files) (place : Place),
    files.place first = .ok place → files.place second = .ok place → first = second

theorem Apart.mono {paths others : List String} (apart : Apart paths) (part : others ⊆ paths) :
    Apart others :=
  fun first firstPlace second secondPlace => apart first (part firstPlace) second (part secondPlace)

variable {files after : Files} {entries : List (String × String)}

/-- A text stays in its file as long as nothing else is written to the file. -/
theorem read_write_all_of_kept {path text : String} (known : files.read path = .ok text)
    (apart : Apart (path :: entries.map (·.1)))
    (kept : ∀ entry ∈ entries, entry.1 = path → entry.2 = text)
    (wrote : files.writeAll entries = .ok after) : after.read path = .ok text := by
  induction entries generalizing files with
  | nil =>
      cases wrote
      exact known
  | cons entry rest induction =>
      obtain ⟨next, first, others⟩ := Success.of_bind wrote
      obtain ⟨same, keeps⟩ := List.forall_mem_cons.mp kept
      have fewer := apart.mono (List.cons_subset_cons path
        (List.subset_cons_self entry.1 (rest.map (·.1))))
      refine induction ?_ fewer keeps others
      · by_cases here : entry.1 = path
        · rw [← here, ← same here]
          exact read_write first
        · refine read_write_of_ne first known fun together => here ?_
          obtain ⟨place, leads, _⟩ := of_write first
          exact apart entry.1 (by simp) path (by simp) files place leads (together.trans leads)

/-- If texts for one path are the same, each file holds its text. -/
theorem read_write_all (apart : Apart (entries.map (·.1)))
    (agree : ∀ first ∈ entries, ∀ second ∈ entries, first.1 = second.1 → first.2 = second.2)
    (wrote : files.writeAll entries = .ok after) :
    ∀ entry ∈ entries, after.read entry.1 = .ok entry.2 := by
  induction entries generalizing files with
  | nil => exact nofun
  | cons entry rest induction =>
      obtain ⟨next, first, others⟩ := Success.of_bind wrote
      refine List.forall_mem_cons.mpr ⟨?_, ?_⟩
      · refine read_write_all_of_kept (read_write first) apart (fun other member same => ?_) others
        exact agree other (List.mem_cons_of_mem _ member) entry List.mem_cons_self same
      · refine induction (apart.mono (List.subset_cons_self entry.1 _)) ?_ others
        exact fun first firstPlace second secondPlace => agree first
          (List.mem_cons_of_mem _ firstPlace) second (List.mem_cons_of_mem _ secondPlace)

end Files

namespace Task

variable {First Second : Type}

def runOn (task : Task (StateM Session) First) (session : Session) :
    Except Failure First × Session :=
  ExceptT.run task session

theorem run_on_eq {task : Task (StateM Session) First} {session : Session}
    {outcome : Except Failure First} (known : (task.runOn session).1 = outcome) :
    task.runOn session = (outcome, (task.runOn session).2) := by
  rw [← known]

theorem run_on_bind (first : Task (StateM Session) First)
    (continued : First → Task (StateM Session) Second) (session : Session) :
    (first >>= continued).runOn session = match first.runOn session with
      | (.ok result, middle) => (continued result).runOn middle
      | (.error failure, middle) => (.error failure, middle) := by
  have steps : (first >>= continued).runOn session =
      ExceptT.bindCont continued (first.runOn session).1 (first.runOn session).2 := rfl
  rw [steps]
  rcases first.runOn session with ⟨outcome, middle⟩
  cases outcome <;> rfl

theorem of_run_on_bind {first : Task (StateM Session) First}
    {continued : First → Task (StateM Session) Second} {session after : Session} {final : Second}
    (success : (first >>= continued).runOn session = (.ok final, after)) :
    ∃ result middle, first.runOn session = (.ok result, middle) ∧
      (continued result).runOn middle = (.ok final, after) := by
  rw [run_on_bind] at success
  split at success
  · rename_i result middle begun
    exact ⟨result, middle, begun, success⟩
  · cases success

theorem of_write_file {attempt : Option String} {path text : String} {session after : Session}
    {result : Unit}
    (success : (Task.onFile attempt (Host.writeFile path text) : Task (StateM Session) Unit).runOn
      session = (.ok result, after)) :
    session.files.write path text = .ok after.files := by
  have steps : (Task.onFile attempt (Host.writeFile path text) : Task (StateM Session) Unit).runOn
      session = ((Session.changeFiles (·.write path text) session).1.mapError (.file attempt),
        (Session.changeFiles (·.write path text) session).2) := rfl
  rw [steps, Session.changeFiles] at success
  cases wrote : session.files.write path text with
  | error fault =>
      rw [wrote] at success
      cases success
  | ok files =>
      rw [wrote] at success
      cases success
      rfl

end Task

namespace BatchCommand

theorem apart_outputs (folder : String) (target : Format) (results : List BatchResult) :
    Files.Apart ((outputs folder target results).map (·.1)) := by
  have path : ∀ path ∈ (outputs folder target results).map (·.1), ∃ source,
      path = Path.join folder (RuleFile.outputName source target) := by
    intro path member
    obtain ⟨entry, inside, rfl⟩ := List.mem_map.mp member
    obtain ⟨result, _, made⟩ := List.mem_filterMap.mp inside
    obtain ⟨text, _, rfl⟩ := Option.map_eq_some_iff.mp made
    exact ⟨result.id, rfl⟩
  intro first firstPlace second secondPlace files place leads alsoLeads
  obtain ⟨source, rfl⟩ := path first firstPlace
  obtain ⟨other, rfl⟩ := path second secondPlace
  exact congrArg _ (Files.name_of_place (RuleFile.is_name_output source target)
    (RuleFile.is_name_output other target) leads alsoLeads)

/-- Outputs are written one after the other, and the paths are given for what was written. -/
theorem write_outputs_ok {folder : String} {target : Format} {results : List BatchResult}
    {session after : Session} {written : List (Option String)}
    (wrote : (writeOutputs folder target results).runOn session = (.ok written, after)) :
    session.files.writeAll (outputs folder target results) = .ok after.files ∧
      written = results.map fun result =>
        (output? result).map fun _ => RuleFile.translatedPath folder result.id target := by
  induction results generalizing session written with
  | nil =>
      cases wrote
      exact ⟨rfl, rfl⟩
  | cons result rest induction =>
      have text : (if result.job.isSuccess then result.job.translation else none) =
          output? result := rfl
      rw [writeOutputs, text] at wrote
      rw [outputs, List.filterMap_cons, List.map_cons]
      cases known : output? result with
      | none =>
          simp only [known, pure_bind] at wrote
          obtain ⟨paths, middle, others, made⟩ := Task.of_run_on_bind wrote
          cases made
          obtain ⟨all, rfl⟩ := induction others
          exact ⟨all, rfl⟩
      | some text =>
          simp only [known, pure_bind] at wrote
          obtain ⟨done, middle, first, wrote⟩ := Task.of_run_on_bind wrote
          obtain ⟨paths, last, others, made⟩ := Task.of_run_on_bind wrote
          cases made
          obtain ⟨all, rfl⟩ := induction others
          refine ⟨?_, rfl⟩
          simp only [Option.map_some, Files.writeAll, Task.of_write_file first]
          exact all

theorem mem_outputs {folder : String} {target : Format} {results : List BatchResult}
    {entry : String × String} : entry ∈ outputs folder target results ↔
      ∃ result ∈ results, ∃ text ∈ output? result,
        entry = (RuleFile.translatedPath folder result.id target, text) := by
  rw [outputs, List.mem_filterMap]
  simp only [Option.map_eq_some_iff, Option.mem_def]
  constructor
  · rintro ⟨result, member, text, made, rfl⟩
    exact ⟨result, member, text, made, rfl⟩
  · rintro ⟨result, member, text, made, rfl⟩
    exact ⟨result, member, text, made, rfl⟩

/-- Once a batch is written, each file holds its rule if and only if rules of one stem became one
text. -/
theorem outputs_kept_iff {folder : String} {target : Format} {results : List BatchResult}
    {session after : Session} {written : List (Option String)}
    (wrote : (writeOutputs folder target results).runOn session = (.ok written, after)) :
    written = results.map (fun result =>
        (output? result).map fun _ => RuleFile.translatedPath folder result.id target) ∧
      ((∀ result ∈ results, ∀ text ∈ output? result,
          after.files.read (RuleFile.translatedPath folder result.id target) = .ok text) ↔
        ∀ first ∈ results, ∀ second ∈ results,
          RuleFile.outputStem first.id = RuleFile.outputStem second.id →
            ∀ text ∈ output? first, ∀ other ∈ output? second, text = other) := by
  obtain ⟨all, recorded⟩ := write_outputs_ok wrote
  refine ⟨recorded, fun kept first firstPlace second secondPlace same => ?_, fun agree => ?_⟩
  · intro text made other alsoMade
    have together : RuleFile.translatedPath folder first.id target =
        RuleFile.translatedPath folder second.id target :=
      congrArg (Path.join folder) (RuleFile.output_name_eq_iff.mpr same)
    have read := kept first firstPlace text made
    rw [together, kept second secondPlace other alsoMade] at read
    exact (Except.ok.inj read).symm
  · have texts : ∀ first ∈ outputs folder target results, ∀ second ∈ outputs folder target results,
        first.1 = second.1 → first.2 = second.2 := by
      intro first firstPlace second secondPlace together
      obtain ⟨result, member, text, made, rfl⟩ := mem_outputs.mp firstPlace
      obtain ⟨other, otherMember, otherText, otherMade, rfl⟩ := mem_outputs.mp secondPlace
      have same := RuleFile.output_name_eq_iff.mp (Path.join_inj together)
      exact agree result member other otherMember same text made otherText otherMade
    intro result member text made
    exact Files.read_write_all (apart_outputs folder target results) texts all _
      (mem_outputs.mpr ⟨result, member, text, made, rfl⟩)

def translatedResult (path text : String) : BatchResult :=
  ⟨path, { Job.ofRequest ⟨.splunk, .sigma, "", true⟩ with
    status := .completed
    translation := some text }⟩

def emptyFolder : Session where
  files := { items := [(["out"], .folder)] }

theorem distinct_stems_kept : ∃ written after,
    (writeOutputs "out" .sigma
      [translatedResult "rules/a.spl" "first", translatedResult "rules/b.spl" "second"]).runOn
        emptyFolder = (.ok written, after) ∧
      after.files.read "out/a.yml" = .ok "first" ∧ after.files.read "out/b.yml" = .ok "second" := by
  have succeeds : ((writeOutputs "out" .sigma
      [translatedResult "rules/a.spl" "first", translatedResult "rules/b.spl" "second"]).runOn
        emptyFolder).1 = .ok [some "out/a.yml", some "out/b.yml"] := by
    decide +kernel
  have wrote := Task.run_on_eq succeeds
  have kept := (outputs_kept_iff wrote).2.mpr (by decide +kernel)
  have first := kept (translatedResult "rules/a.spl" "first") (by simp) "first" rfl
  have second := kept (translatedResult "rules/b.spl" "second") (by simp) "second" rfl
  have places : RuleFile.translatedPath "out" "rules/a.spl" .sigma = "out/a.yml" ∧
      RuleFile.translatedPath "out" "rules/b.spl" .sigma = "out/b.yml" := by
    decide +kernel
  exact ⟨_, _, wrote, places.1 ▸ first, places.2 ▸ second⟩

/-- Of two rules of one stem, the second takes the place of the first. -/
theorem same_stem_overwritten : ∃ after,
    (writeOutputs "out" .sigma
      [translatedResult "rules/a/x.spl" "first", translatedResult "rules/b/x.spl" "second"]).runOn
        emptyFolder = (.ok [some "out/x.yml", some "out/x.yml"], after) ∧
      after.files.read "out/x.yml" = .ok "second" := by
  have succeeds : ((writeOutputs "out" .sigma
      [translatedResult "rules/a/x.spl" "first", translatedResult "rules/b/x.spl" "second"]).runOn
        emptyFolder).1 = .ok [some "out/x.yml", some "out/x.yml"] := by
    decide +kernel
  exact ⟨_, Task.run_on_eq succeeds, by decide +kernel⟩

end BatchCommand

end DetectionRules.CommandLine
