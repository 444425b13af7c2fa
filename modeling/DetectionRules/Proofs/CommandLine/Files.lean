import DetectionRules.CommandLine.Files
import DetectionRules.Proofs.Success
import DetectionRules.Proofs.Text
import Mathlib

/-!
What is read from files after something was written to them: what was written
last to the same place, and what was there before at every other place.
-/

namespace DetectionRules

namespace Path

structure IsName (name : String) : Prop where
  whole : '/' ∉ name.toList
  filled : name ≠ ""
  notHere : name ≠ "."
  notAbove : name ≠ ".."

theorem join_inj {folder first second : String} (same : join folder first = join folder second) :
    first = second := by
  rw [join, join] at same
  split at same
  · exact String.append_right_inj _ |>.mp same
  · exact String.append_right_inj _ |>.mp same

theorem pieces_join (folder : String) {name : String} (isName : IsName name) :
    ∃ fronts, pieces (join folder name) = fronts ++ [name] := by
  have single : Text.splitWhen (· == '/') name.toList = [name.toList] :=
    Text.split_when_clean fun c member => by
      simpa using fun same : c = '/' => isName.whole (same ▸ member)
  have behind (front : List Char) : ∃ fronts,
      (Text.splitWhen (· == '/') (front ++ '/' :: name.toList)).map String.ofList =
        fronts ++ [name] := by
    rw [Text.split_when_append front name.toList (by decide), single, List.map_append]
    exact ⟨_, by rw [List.map_singleton, String.ofList_toList]⟩
  rw [pieces, join]
  split
  · rename_i known
    rcases Bool.or_eq_true_iff.mp known with empty | ends
    · exact ⟨[], by simp [beq_iff_eq.mp empty, single]⟩
    · obtain ⟨front, split⟩ := List.isSuffixOf_iff_suffix.mp ends
      have slash : "/".toList = ['/'] := by decide
      rw [String.toList_append, ← split, slash, List.append_assoc, List.singleton_append]
      exact behind front
  · have slash : "/".toList = ['/'] := by decide
    rw [String.toList_append, String.toList_append, slash, List.append_assoc,
      List.singleton_append]
    exact behind folder.toList

end Path

namespace CommandLine.Files

variable {files : Files}

theorem lookup_put (files : Files) (other place : Place) (item : FileItem) :
    (files.put other item).lookup place =
      if place.isEmpty then some .folder else if place = other then some item
      else files.lookup place := by
  have kept (different : place ≠ other) (items : List (Place × FileItem)) :
      (items.filter (·.1 != other)).lookup place = items.lookup place := by
    induction items with
    | nil => rfl
    | cons entry rest induction =>
        by_cases removed : entry.1 = other
        · have skipped : (place == entry.1) = false := by simpa [removed] using different
          rw [List.filter_cons_of_neg (by simpa using removed), induction, List.lookup_cons, skipped]
        · rw [List.filter_cons_of_pos (by simpa using removed), List.lookup_cons, List.lookup_cons,
            induction]
  rw [lookup, lookup, put]
  split
  · rfl
  · by_cases same : place = other
    · rw [List.lookup_cons, if_pos same, same, beq_self_eq_true]
    · have different : (place == other) = false := by simpa using same
      rw [List.lookup_cons, different, if_neg same]
      exact kept same files.items

theorem follow_put {other : Place} (noFolder : files.lookup other ≠ some .folder) (item : FileItem)
    {start place : Place} {names : List String} (follows : files.follow start names = .ok place) :
    (files.put other item).follow start names = .ok place := by
  induction names generalizing start with
  | nil => exact follows
  | cons name rest induction =>
      rw [follow] at follows ⊢
      cases found : files.lookup start with
      | none => simp [found] at follows
      | some there =>
          cases there with
          | text content => simp [found] at follows
          | bytes => simp [found] at follows
          | folder =>
              have different : start ≠ other := fun same => noFolder (same ▸ found)
              have still : (files.put other item).lookup start = some .folder := by
                rw [lookup_put, if_neg different, found, ite_self]
              simp only [found, still] at follows ⊢
              split at follows
              · rename_i here
                rw [if_pos here]
                exact induction follows
              · rename_i elsewhere
                rw [if_neg elsewhere]
                split at follows
                · rename_i above
                  rw [if_pos above]
                  exact induction follows
                · rename_i below
                  rw [if_neg below]
                  split at follows
                  · cases follows
                  · rename_i short
                    rw [if_neg short]
                    exact induction follows

theorem place_put {other : Place} (noFolder : files.lookup other ≠ some .folder) (item : FileItem)
    {path : String} {place : Place} (leads : files.place path = .ok place) :
    (files.put other item).place path = .ok place := by
  rw [Files.place] at leads ⊢
  split at leads
  · cases leads
  · rename_i filled
    rw [if_neg filled]
    split at leads
    · cases leads
    · rename_i clean
      rw [if_neg clean]
      exact follow_put noFolder item leads

theorem of_write {after : Files} {path content : String}
    (wrote : files.write path content = .ok after) :
    ∃ place, files.place path = .ok place ∧ files.lookup place ≠ some .folder ∧
      after = files.put place (.text content) := by
  rw [write] at wrote
  split at wrote
  · obtain ⟨_, _, failed⟩ := Success.of_bind wrote
    cases failed
  · obtain ⟨place, leads, wrote⟩ := Success.of_bind wrote
    refine ⟨place, leads, ?_⟩
    split at wrote
    · cases wrote
    · rename_i noFolder
      cases wrote
      exact ⟨noFolder, rfl⟩

theorem read_eq_of_place {path text : String} {place : Place} (leads : files.place path = .ok place) :
    files.read path = .ok text ↔ files.lookup place = some (.text text) := by
  simp only [read, find, leads, Except.map, bind, Except.bind, pure, Except.pure, throw, throwThe,
    MonadExceptOf.throw]
  cases files.lookup place with
  | none => simp
  | some item => cases item <;> simp

theorem read_write {after : Files} {path content : String}
    (wrote : files.write path content = .ok after) : after.read path = .ok content := by
  obtain ⟨place, leads, noFolder, rfl⟩ := of_write wrote
  have filled : ¬ place.isEmpty = true := fun empty => noFolder (by rw [lookup, if_pos empty])
  rw [read_eq_of_place (place_put noFolder _ leads), lookup_put, if_neg filled, if_pos rfl]

theorem read_write_of_ne {after : Files} {path content other text : String}
    (wrote : files.write path content = .ok after) (known : files.read other = .ok text)
    (different : files.place other ≠ files.place path) : after.read other = .ok text := by
  obtain ⟨place, leads, noFolder, rfl⟩ := of_write wrote
  cases found : files.place other with
  | error fault => simp [read, find, found, Except.map, bind, Except.bind] at known
  | ok otherPlace =>
      rw [read_eq_of_place found] at known
      have apart : otherPlace ≠ place := by
        rintro rfl
        exact different (found.trans leads.symm)
      have filled : ¬ otherPlace.isEmpty = true := fun empty => by
        rw [lookup, if_pos empty] at known
        cases known
      rw [read_eq_of_place (place_put noFolder _ found), lookup_put, if_neg filled, if_neg apart,
        known]

theorem last_of_follow {start place : Place} {fronts : List String} {name : String}
    (isName : Path.IsName name) (follows : files.follow start (fronts ++ [name]) = .ok place) :
    place.getLast? = some name := by
  induction fronts generalizing start with
  | nil =>
      rw [List.nil_append, follow] at follows
      split at follows
      · cases follows
      · rw [if_neg (by simp [isName.filled, isName.notHere]),
          if_neg (by simp [isName.notAbove])] at follows
        split at follows
        · cases follows
        · cases follows
          exact List.getLast?_concat
      · cases follows
  | cons front rest induction =>
      rw [List.cons_append, follow] at follows
      split at follows
      · cases follows
      · split at follows
        · exact induction follows
        · split at follows
          · exact induction follows
          · split at follows
            · cases follows
            · exact induction follows
      · cases follows

/-- Different names in a folder lead to different places. -/
theorem name_of_place {folder first second : String} {place : Place}
    (isFirst : Path.IsName first) (isSecond : Path.IsName second)
    (leads : files.place (Path.join folder first) = .ok place)
    (alsoLeads : files.place (Path.join folder second) = .ok place) : first = second := by
  have last {name : String} (isName : Path.IsName name)
      (leads : files.place (Path.join folder name) = .ok place) : place.getLast? = some name := by
    obtain ⟨fronts, pieces⟩ := Path.pieces_join folder isName
    rw [Files.place] at leads
    split at leads
    · cases leads
    · split at leads
      · cases leads
      · rw [pieces] at leads
        exact last_of_follow isName leads
  exact Option.some.inj ((last isFirst leads).symm.trans (last isSecond alsoLeads))

end CommandLine.Files

end DetectionRules
