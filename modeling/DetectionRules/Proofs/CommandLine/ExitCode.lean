import DetectionRules.Proofs.CommandLine.Outputs
import DetectionRules.Proofs.Engine.Items

/-!
What the exit code of a batch tells. Files that hold no rule fail in their
place, and the rules between them are translated chunk by chunk; a run that
stops early has a failure among its results. So the results are those of the
first entries, in their order, and the code is that of success if and only if
every entry was loaded and translated.
-/

namespace DetectionRules

namespace BatchSummary

variable {rounded : Rat → Rat} {results : List BatchResult}

theorem failed_of_counted (counted : 0 < (ofResults rounded results).failed) :
    ∃ result ∈ results, result.job.status ≠ .completed := by
  obtain ⟨job, member⟩ := List.exists_mem_of_length_pos counted
  obtain ⟨inside, failed⟩ := List.mem_filter.mp member
  obtain ⟨result, known, rfl⟩ := List.mem_map.mp inside
  refine ⟨result, known, fun completed => ?_⟩
  simp [isFailed, completed] at failed

theorem exit_code_success :
    CommandLine.ExitCode.ofBatch (ofResults rounded results) = .success ↔
      results ≠ [] ∧ ∀ result ∈ results, result.job.status = .completed := by
  have parts := @total_eq rounded results
  have counted := @total_of_results rounded results
  have all : (ofResults rounded results).successful = results.length ↔
      ∀ result ∈ results, result.job.status = .completed := by
    rw [← List.length_map (·.job), ofResults, List.length_filter_eq_length_iff]
    simp [Job.isSuccess]
  rw [← all, ← List.length_pos_iff_ne_nil, CommandLine.ExitCode.ofBatch]
  rw [counted, processed] at parts
  have status : (ofResults rounded results).status = .failed ↔
      0 < (ofResults rounded results).cancelled ∨
        0 < (ofResults rounded results).failed ∧ (ofResults rounded results).successful = 0 := by
    have empty (jobs : List Job) : jobs.isEmpty = decide (jobs.length = 0) := by
      cases jobs <;> rfl
    simp only [ofResults, empty]
    split
    · rename_i failed
      simpa [Nat.pos_iff_ne_zero] using failed
    · rename_i completed
      simpa [Nat.pos_iff_ne_zero] using completed
  rw [counted]
  split
  · simp; omega
  · split
    · simp; omega
    · simp only [Bool.or_eq_true, decide_eq_true_eq, status]
      split
      · simp; omega
      · simp; omega

end BatchSummary

namespace CommandLine

namespace BatchRun

variable {Item : Type}

theorem flatten_chunks (size : Nat) (items : List Item) : (chunks size items).flatten = items := by
  fun_induction chunks size items with
  | case1 => rfl
  | case2 first rest induction =>
      rw [List.flatten_cons, induction, List.cons_append, List.take_append_drop]

/-- The entries for files, from what became of loading each of them. -/
def loaded (target : Format) (outcomes : List (String × Except Failure DetectionText)) :
    List Loaded :=
  outcomes.map fun (path, outcome) => .ofFile path target outcome

/-- The result of an entry: the failure of its file, or a job for its rule. -/
def IsResultOf (target : Format) : Loaded → BatchResult → Prop
  | .error failed, result => result = failed
  | .ok item, result => Engine.IsItemResult target item result

def IsTranslated (entry : Loaded) (result : BatchResult) : Prop :=
  entry.isOk = true ∧ result.job.status = .completed

/-- The results are those of the first entries, and a run that did not come to the end was stopped
by something that was not completed. -/
structure Covers (run : BatchRun) (entries : List Loaded) (progress : Progress) : Prop where
  results : ∃ done rest, entries = done ++ rest ∧
    List.Forall₂ (IsResultOf run.target) done progress.results ∧
    (progress.stopped = false → rest = [])
  reason : progress.stopped = true → run.stopsOnFailure = true ∧
    ∃ result ∈ progress.results, result.job.status ≠ .completed

namespace Covers

variable {run : BatchRun} {entries others : List Loaded} {progress later : Progress}

theorem of_stopped (covers : run.Covers entries progress) (stopped : progress.stopped = true) :
    run.Covers (entries ++ others) progress := by
  obtain ⟨done, rest, rfl, results, _⟩ := covers.results
  refine ⟨⟨done, rest ++ others, List.append_assoc .., results, fun goesOn => ?_⟩, covers.reason⟩
  rw [stopped] at goesOn
  cases goesOn

theorem append (covers : run.Covers entries progress) (goesOn : progress.stopped = false)
    (then_ : run.Covers others later) :
    run.Covers (entries ++ others) { later with results := progress.results ++ later.results } := by
  obtain ⟨done, rest, rfl, results, all⟩ := covers.results
  obtain ⟨next, left, rfl, continued, toEnd⟩ := then_.results
  obtain rfl := all goesOn
  refine ⟨⟨done ++ next, left, by simp, List.rel_append results continued, toEnd⟩, fun stopped => ?_⟩
  obtain ⟨mode, result, member, failed⟩ := then_.reason stopped
  exact ⟨mode, result, List.mem_append_right _ member, failed⟩

end Covers

section Runs

variable {run : BatchRun} {moment : Moment} {progress : Progress}

theorem covers_nothing : run.Covers [] ⟨[], false, moment⟩ :=
  ⟨⟨[], [], rfl, .nil, fun _ => rfl⟩, nofun⟩

theorem run_chunks_covers {all : List (List BatchItem)}
    (ran : run.runChunks moment all = .ok progress) :
    run.Covers (all.flatten.map .ok) progress := by
  induction all generalizing moment progress with
  | nil =>
      cases ran
      exact covers_nothing
  | cons chunk rest induction =>
      obtain ⟨⟨summary, later⟩, done, ran⟩ := Success.of_bind ran
      obtain ⟨counted, results⟩ := Engine.of_translate_batch done
      have own : List.Forall₂ (IsResultOf run.target) (chunk.map .ok) summary.results :=
        List.forall₂_map_left_iff.mpr results
      have complete (stopped : Bool) (reason : stopped = true → run.stopsOnFailure = true ∧
          ∃ result ∈ summary.results, result.job.status ≠ .completed) :
          run.Covers (chunk.map .ok) ⟨summary.results, stopped, later⟩ :=
        ⟨⟨chunk.map .ok, [], by simp, own, fun _ => rfl⟩, reason⟩
      rw [List.flatten_cons, List.map_append]
      dsimp only at ran
      split at ran
      · rename_i stops
        obtain ⟨mode, failed⟩ := Bool.and_eq_true_iff.mp stops
        cases ran
        refine (complete true fun _ => ⟨mode, ?_⟩).of_stopped rfl
        rw [counted] at failed
        exact BatchSummary.failed_of_counted (of_decide_eq_true failed)
      · obtain ⟨others, continued, ran⟩ := Success.of_bind ran
        cases ran
        exact (complete false nofun).append rfl (induction continued)

theorem run_items_covers {items : List BatchItem} (ran : run.runItems moment items = .ok progress) :
    run.Covers (items.map .ok) progress := by
  have covers := run_chunks_covers ran
  rwa [flatten_chunks] at covers

def HoldsFailures (entries : List Loaded) : Prop :=
  ∀ failed, .error failed ∈ entries → failed.job.status = .failed

theorem run_entries_covers {waiting : List BatchItem} {entries : List Loaded}
    (failures : HoldsFailures entries) (ran : run.runEntries moment waiting entries = .ok progress) :
    run.Covers (waiting.map .ok ++ entries) progress := by
  induction entries generalizing moment waiting progress with
  | nil =>
      rw [List.append_nil]
      exact run_items_covers ran
  | cons entry rest induction =>
      have later : HoldsFailures rest := fun failed member =>
        failures failed (List.mem_cons_of_mem _ member)
      cases entry with
      | ok item =>
          have covers := induction later ran
          rwa [List.map_append, List.append_assoc] at covers
      | error failed =>
          obtain ⟨before, waited, ran⟩ := Success.of_bind ran
          have first := run_items_covers waited
          dsimp only at ran
          split at ran
          · rename_i stopped
            cases ran
            exact first.of_stopped stopped
          · rename_i goesOn
            have goesOn := Bool.eq_false_iff.mpr goesOn
            have status := failures failed List.mem_cons_self
            have own (stopped : Bool) (mode : stopped = true → run.stopsOnFailure = true) :
                run.Covers (waiting.map .ok ++ [.error failed])
                  ⟨before.results ++ [failed], stopped, before.moment⟩ := by
              have single : run.Covers [.error failed] ⟨[failed], stopped, before.moment⟩ :=
                ⟨⟨[.error failed], [], rfl, .cons rfl .nil, fun _ => rfl⟩, fun stopped =>
                  ⟨mode stopped, failed, List.mem_singleton_self failed, by simp [status]⟩⟩
              exact first.append goesOn single
            rw [← List.singleton_append, ← List.append_assoc]
            split at ran
            · rename_i mode
              cases ran
              exact (own true fun _ => mode).of_stopped rfl
            · obtain ⟨others, continued, ran⟩ := Success.of_bind ran
              cases ran
              exact (own false nofun).append rfl (induction later continued)

end Runs

/-- What a batch has to say of its entries. -/
structure IsAccount (run : BatchRun) (entries : List Loaded) (summary : BatchSummary) : Prop where
  /-- The results are those of the first entries, and of all if the run goes on after failures. -/
  results : ∃ done rest, entries = done ++ rest ∧
    List.Forall₂ (IsResultOf run.target) done summary.results ∧
    (run.stopsOnFailure = false → rest = [])
  notRun : summary.total ≤ entries.length
  success : ExitCode.ofBatch summary = .success ↔
    List.Forall₂ IsTranslated entries summary.results

theorem holds_failures_loaded (target : Format)
    (outcomes : List (String × Except Failure DetectionText)) :
    HoldsFailures (loaded target outcomes) := by
  intro failed member
  obtain ⟨⟨path, outcome⟩, _, same⟩ := List.mem_map.mp member
  cases outcome with
  | ok rule => cases same
  | error failure =>
      cases same
      rfl

theorem translated_of_completed {target : Format} {entries : List Loaded}
    {results : List BatchResult} (failures : HoldsFailures entries)
    (all : List.Forall₂ (IsResultOf target) entries results)
    (completed : ∀ result ∈ results, result.job.status = .completed) :
    List.Forall₂ IsTranslated entries results := by
  induction all with
  | nil => exact .nil
  | @cons entry result rest others first _ induction =>
      obtain ⟨done, later⟩ := List.forall_mem_cons.mp completed
      refine .cons ⟨?_, done⟩ (induction (fun failed member =>
        failures failed (List.mem_cons_of_mem _ member)) later)
      cases entry with
      | ok item => rfl
      | error failed =>
          have status := failures failed List.mem_cons_self
          obtain rfl : result = failed := first
          rw [done] at status
          cases status

theorem is_account_of_covers {run : BatchRun} {entries : List Loaded} {progress : Progress}
    {rounded : Rat → Rat} (filled : entries ≠ []) (failures : HoldsFailures entries)
    (covers : run.Covers entries progress) :
    run.IsAccount entries (.ofResults rounded progress.results) := by
  obtain ⟨done, rest, rfl, results, all⟩ := covers.results
  have length := results.length_eq
  have goesOn (mode : run.stopsOnFailure = false) : rest = [] := by
    refine all (Bool.eq_false_iff.mpr fun stopped => ?_)
    rw [(covers.reason stopped).1] at mode
    cases mode
  refine ⟨⟨done, rest, rfl, results, goesOn⟩, ?_, BatchSummary.exit_code_success.trans
    ⟨fun ⟨_, completed⟩ => ?_, fun translated => ⟨?_, fun result member => ?_⟩⟩⟩
  · rw [BatchSummary.total_of_results, ← length, List.length_append]
    omega
  · have running : progress.stopped = false := by
      refine Bool.eq_false_iff.mpr fun stopped => ?_
      obtain ⟨_, result, member, failed⟩ := covers.reason stopped
      exact failed (completed result member)
    obtain rfl := all running
    rw [List.append_nil] at failures ⊢
    exact translated_of_completed failures results completed
  · rintro none
    have none : progress.results = [] := none
    rw [show (BatchSummary.ofResults rounded progress.results).results = [] from none,
      List.forall₂_nil_right_iff] at translated
    exact filled translated
  · obtain ⟨index, present⟩ := List.mem_iff_getElem?.mp member
    obtain ⟨_, _, done⟩ := forall₂_at translated present
    exact done.2

theorem summarize_is_account {run : BatchRun}
    {outcomes : List (String × Except Failure DetectionText)} {summary : BatchSummary}
    {duration : Nat} (filled : outcomes ≠ [])
    (ran : run.summarize (loaded run.target outcomes) = .ok (summary, duration)) :
    run.IsAccount (loaded run.target outcomes) summary := by
  obtain ⟨progress, covered, ran⟩ := Success.of_bind ran
  obtain ⟨rfl, _⟩ := Prod.mk.inj (Except.ok.inj ran)
  have failures := holds_failures_loaded run.target outcomes
  exact is_account_of_covers (by simpa [loaded] using filled) failures
    (run_entries_covers failures covered)

end BatchRun

namespace BatchCommand

variable {command : BatchCommand} {session after : Session}

def batchRun (command : BatchCommand) (engine : Engine Unit) : BatchRun :=
  ⟨engine, command.target, command.continueOnError, command.maxConcurrent⟩

theorem load_all_eq (command : BatchCommand) (files : List String) (session : Session) :
    ∃ outcomes, ((command.loadAll files : StateM Session (List Loaded)) session).1 =
        BatchRun.loaded command.target outcomes ∧ outcomes.map (·.1) = files := by
  induction files generalizing session with
  | nil => exact ⟨[], rfl, rfl⟩
  | cons path rest induction =>
      let load : Task (StateM Session) DetectionText := RuleFile.load command.source path
      obtain ⟨outcomes, same, paths⟩ := induction (load.runOn session).2
      exact ⟨(path, (load.runOn session).1) :: outcomes, congrArg _ same, by simp [paths]⟩

theorem run_on_lift {Result : Type} (action : StateM Session Result) (session : Session) :
    Task.runOn (ExceptT.lift action) session = (.ok (action session).1, (action session).2) := rfl

theorem of_run_on_if {Result : Type} {shows : Prop} [Decidable shows]
    {message : Task (StateM Session) Unit} {continued : Unit → Task (StateM Session) Result}
    {final : Result}
    (success : (if shows then message >>= continued else continued ()).runOn session =
      (.ok final, after)) :
    ∃ middle, (continued ()).runOn middle = (.ok final, after) := by
  split at success
  · obtain ⟨_, middle, _, success⟩ := Task.of_run_on_bind success
    exact ⟨middle, success⟩
  · exact ⟨session, success⟩

theorem of_run_on_pure {Result : Type} {outcome : Except Failure Result} {result : Result}
    (success : Task.runOn (ExceptT.mk (pure outcome)) session = (.ok result, after)) :
    outcome = .ok result := (Prod.mk.inj success).1

theorem code_of_run {terminal : Terminal} {config : Config} {showsProgress : Bool} {code : ExitCode}
    (ran : (command.run terminal config showsProgress).runOn session = (.ok code, after)) :
    ∃ files listed, (filesOfAll command.paths).runOn session = (.ok files, listed) ∧
      ∃ outcomes, outcomes.map (·.1) = files ∧
        (outcomes = [] ∧ code = .noItems ∨
          outcomes ≠ [] ∧ ∃ engine summary duration, engineFor config = .ok engine ∧
            (command.batchRun engine).summarize (BatchRun.loaded command.target outcomes) =
              .ok (summary, duration) ∧ code = .ofBatch summary) := by
  obtain ⟨files, listed, found, ran⟩ := Task.of_run_on_bind ran
  obtain ⟨entries, middle, read, ran⟩ := Task.of_run_on_bind ran
  obtain ⟨outcomes, same, paths⟩ := load_all_eq command files listed
  rw [run_on_lift, same] at read
  cases read
  refine ⟨files, listed, found, outcomes, paths, ?_⟩
  dsimp only at ran
  split at ran
  · rename_i none
    obtain ⟨_, ran⟩ := of_run_on_if ran
    cases ran
    exact .inl ⟨by simpa [BatchRun.loaded] using none, rfl⟩
  · rename_i filled
    obtain ⟨_, ran⟩ := of_run_on_if ran
    obtain ⟨engine, _, made, ran⟩ := Task.of_run_on_bind ran
    obtain ⟨⟨summary, duration⟩, _, summed, ran⟩ := Task.of_run_on_bind ran
    obtain ⟨_, ran⟩ := of_run_on_if ran
    refine .inr ⟨by simpa [BatchRun.loaded] using filled, engine, summary, duration,
      of_run_on_pure made, Success.of_map_error (of_run_on_pure summed), ?_⟩
    have shown {written : List (Option String)} {middle : Session}
        (ran : (command.present terminal summary written
            (BatchRun.loaded command.target outcomes).length duration >>= fun _ =>
          pure (ExitCode.ofBatch summary)).runOn middle = (.ok code, after)) :
        code = .ofBatch summary := by
      obtain ⟨_, _, _, ran⟩ := Task.of_run_on_bind ran
      cases ran
      rfl
    split at ran
    · obtain ⟨_, _, _, ran⟩ := Task.of_run_on_bind ran
      exact shown ran
    · obtain ⟨_, _, _, ran⟩ := Task.of_run_on_bind ran
      obtain ⟨_, _, _, ran⟩ := Task.of_run_on_bind ran
      exact shown ran

/-- Of any files, loaded or not, a batch gives the results in their order, of all of them unless a
failure stopped it, and it ends with the code of success if and only if each of them was loaded and
translated. -/
theorem exit_code_tells :
    (∀ (run : BatchRun) (outcomes : List (String × Except Failure DetectionText))
      (summary : BatchSummary) (duration : Nat), outcomes ≠ [] →
      run.summarize (BatchRun.loaded run.target outcomes) = .ok (summary, duration) →
      run.IsAccount (BatchRun.loaded run.target outcomes) summary) ∧
    ∀ (command : BatchCommand) (terminal : Terminal) (config : Config) (showsProgress : Bool)
      (session after : Session) (code : ExitCode),
      (command.run terminal config showsProgress).runOn session = (.ok code, after) →
      ∃ files listed, (filesOfAll command.paths).runOn session = (.ok files, listed) ∧
        ∃ outcomes, outcomes.map (·.1) = files ∧
          (outcomes = [] ∧ code = .noItems ∨
            outcomes ≠ [] ∧ ∃ engine summary duration, engineFor config = .ok engine ∧
              (command.batchRun engine).summarize (BatchRun.loaded command.target outcomes) =
                .ok (summary, duration) ∧
              (command.batchRun engine).IsAccount (BatchRun.loaded command.target outcomes)
                summary ∧ code = .ofBatch summary) := by
  refine ⟨fun run outcomes summary duration => BatchRun.summarize_is_account, ?_⟩
  intro command terminal config showsProgress session after code ran
  obtain ⟨files, listed, found, outcomes, paths, comes⟩ := code_of_run ran
  refine ⟨files, listed, found, outcomes, paths, comes.imp_right fun given => ?_⟩
  obtain ⟨filled, engine, summary, duration, made, summed, code⟩ := given
  exact ⟨filled, engine, summary, duration, made, summed,
    BatchRun.summarize_is_account filled summed, code⟩

def missingFile (path : String) : String × Except Failure DetectionText :=
  (path, .error (.file (some ("Failed to read rule file: " ++ path)) .notFound))

def mixedRun (goesOn : Bool) : BatchRun := ⟨Engine.plain, .kql, some goesOn, none⟩

def strictCommand : BatchCommand where
  paths := ["missing.csql", "rule.csql"]
  target := .kql
  source := none
  continueOnError := some false
  maxConcurrent := none
  outFolder := none
  asLines := false
  hidesProgress := true

theorem mixed_files_told :
    (∃ summary, (mixedRun true).IsAccount
      (BatchRun.loaded .kql [("first.csql", .ok ⟨"a=1", .crowdstrike⟩), missingFile "missing.csql",
        ("last.csql", .ok ⟨"b=2", .crowdstrike⟩)]) summary) ∧
    (∃ summary, (mixedRun false).IsAccount
      (BatchRun.loaded .kql [missingFile "missing.csql", ("rule.csql", .ok ⟨"a=1", .crowdstrike⟩)])
        summary) ∧
    ∃ after, (strictCommand.run ⟨.plain, false⟩ {} false).runOn
        { files := { items := [(["rule.csql"], .text "a=1")] } } = (.ok .totalFailure, after) ∧
      ∃ outcomes, outcomes.map (·.1) = ["missing.csql", "rule.csql"] ∧ ∃ engine summary,
        (strictCommand.batchRun engine).IsAccount (BatchRun.loaded .kql outcomes) summary ∧
          ExitCode.ofBatch summary = .totalFailure := by
  obtain ⟨told, commands⟩ := exit_code_tells
  refine ⟨?_, ?_, ?_⟩
  · obtain ⟨⟨summary, duration⟩, ran⟩ := Success.of_is_ok
      (show ((mixedRun true).summarize (BatchRun.loaded .kql
        [("first.csql", .ok ⟨"a=1", .crowdstrike⟩), missingFile "missing.csql",
          ("last.csql", .ok ⟨"b=2", .crowdstrike⟩)])).isOk = true by decide +kernel)
    exact ⟨summary, told (mixedRun true) _ summary duration (by simp) ran⟩
  · obtain ⟨⟨summary, duration⟩, ran⟩ := Success.of_is_ok
      (show ((mixedRun false).summarize (BatchRun.loaded .kql
        [missingFile "missing.csql", ("rule.csql", .ok ⟨"a=1", .crowdstrike⟩)])).isOk = true by
          decide +kernel)
    exact ⟨summary, told (mixedRun false) _ summary duration (by simp) ran⟩
  · have ends : ((strictCommand.run ⟨.plain, false⟩ {} false).runOn
        { files := { items := [(["rule.csql"], .text "a=1")] } }).1 = .ok .totalFailure := by
      decide +kernel
    have ran := Task.run_on_eq ends
    obtain ⟨files, listed, found, outcomes, paths, none | some⟩ := commands _ _ _ _ _ _ _ ran
    · exact absurd none.2 (by decide)
    · obtain ⟨_, engine, summary, _, _, _, account, code⟩ := some
      have named : files = ["missing.csql", "rule.csql"] := by
        have same := congrArg Prod.fst found
        exact (Except.ok.inj (same.symm.trans (by decide +kernel)))
      exact ⟨_, ran, outcomes, paths.trans named, engine, summary, account, code.symm⟩

end BatchCommand

end CommandLine

end DetectionRules
