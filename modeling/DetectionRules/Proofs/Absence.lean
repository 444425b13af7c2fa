import DetectionRules.Proofs.Logic

/-!
Trees in which terms may be absent. A group is judged by its members that are
there, and a group without such a member is absent itself; `flatten` leaves a
tree with this meaning. Absent terms may as well be taken to be true as long as
they are demanded beside other terms, and not offered as an alternative.
-/

namespace DetectionRules.Logic

variable {Term : Type}

mutual

/-- The truth value of what is there, nothing if all terms are absent. -/
def evalPart (holds : Term → Bool) : Logic (Option Term) → Option Bool
  | term value => value.map holds
  | all items => evalPartAll holds items
  | any items => evalPartAny holds items
  | not item => (evalPart holds item).map (!·)

def evalPartAll (holds : Term → Bool) : List (Logic (Option Term)) → Option Bool
  | [] => none
  | item :: rest => Option.merge (· && ·) (evalPart holds item) (evalPartAll holds rest)

def evalPartAny (holds : Term → Bool) : List (Logic (Option Term)) → Option Bool
  | [] => none
  | item :: rest => Option.merge (· || ·) (evalPart holds item) (evalPartAny holds rest)

end

example : evalPart id (.all [.any [.term none, .term (some false)], .not (.term none)]) = some false := by
  cbv

def isVoid (tree : Logic (Option Term)) : Bool := tree.terms.all (·.isNone)

mutual

/-- Whether absent terms stand beside others that are demanded too. An alternative to a tree
without a term must have none either, and no such tree may be negated. -/
def isNeutral : Logic (Option Term) → Bool
  | term _ => true
  | all items => areNeutral items
  | any items => !items.isEmpty && areNeutral items && (items.all isVoid || !items.any isVoid)
  | not item => isNeutral item && !item.isVoid

def areNeutral : List (Logic (Option Term)) → Bool
  | [] => true
  | item :: rest => isNeutral item && areNeutral rest

end

theorem are_neutral (items : List (Logic (Option Term))) :
    areNeutral items = items.all isNeutral := by
  induction items with
  | nil => rfl
  | cons item rest induction => rw [areNeutral, induction, List.all_cons]

variable {holds : Term → Bool}

theorem eval_part_all (items : List (Logic (Option Term))) :
    evalPartAll holds items = (items.map (evalPart holds)).foldr (Option.merge (· && ·)) none := by
  induction items with
  | nil => rfl
  | cons item rest induction => rw [evalPartAll, induction, List.map_cons, List.foldr_cons]

theorem eval_part_any (items : List (Logic (Option Term))) :
    evalPartAny holds items = (items.map (evalPart holds)).foldr (Option.merge (· || ·)) none := by
  induction items with
  | nil => rfl
  | cons item rest induction => rw [evalPartAny, induction, List.map_cons, List.foldr_cons]

section Joining

variable {join : Bool → Bool → Bool}

theorem fold_merge_eq_none_iff {values : List (Option Bool)} :
    values.foldr (Option.merge join) none = none ↔ ∀ value ∈ values, value = none := by
  induction values with
  | nil => simp
  | cons value rest induction =>
      rw [List.foldr_cons, List.forall_mem_cons, ← induction]
      cases value <;> cases rest.foldr (Option.merge join) none <;> simp [Option.merge]

variable [Std.Associative join]

theorem fold_merge_append (front back : List (Option Bool)) :
    (front ++ back).foldr (Option.merge join) none =
      Option.merge join (front.foldr (Option.merge join) none)
        (back.foldr (Option.merge join) none) := by
  induction front with
  | nil => simp
  | cons value rest induction =>
      rw [List.cons_append, List.foldr_cons, List.foldr_cons, induction]
      exact (Std.Associative.assoc _ _ _).symm

theorem fold_merge_members {Item : Type} (value : Item → Option Bool) {members : Item → List Item}
    (group : ∀ item, ((members item).map value).foldr (Option.merge join) none = value item)
    (items : List Item) :
    ((items.flatMap members).map value).foldr (Option.merge join) none =
      (items.map value).foldr (Option.merge join) none := by
  induction items with
  | nil => rfl
  | cons item rest induction =>
      rw [List.flatMap_cons, List.map_append, fold_merge_append, group, induction, List.map_cons,
        List.foldr_cons]

end Joining

theorem fold_and_get_d (values : List (Option Bool)) :
    (values.foldr (Option.merge (· && ·)) none).getD true = values.all (·.getD true) := by
  induction values with
  | nil => rfl
  | cons value rest induction =>
      rw [List.foldr_cons, List.all_cons, ← induction]
      cases value <;> cases rest.foldr (Option.merge (· && ·)) none <;> simp [Option.merge]

theorem fold_or_get_d {values : List (Option Bool)} (some : values ≠ [])
    (present : ∀ value ∈ values, value ≠ none) :
    (values.foldr (Option.merge (· || ·)) none).getD true = values.any (·.getD true) := by
  induction values with
  | nil => exact absurd rfl some
  | cons value rest induction =>
      obtain ⟨known, others⟩ := List.forall_mem_cons.mp present
      obtain ⟨first, rfl⟩ := Option.ne_none_iff_exists'.mp known
      rw [List.foldr_cons, List.any_cons]
      cases rest with
      | nil => simp
      | cons second later =>
          rw [← induction (by simp) others]
          have filled : (second :: later).foldr (Option.merge (· || ·)) none ≠ none := by
            rw [Ne, fold_merge_eq_none_iff]
            exact fun absent => others second (by simp) (absent second (by simp))
          obtain ⟨joined, found⟩ := Option.ne_none_iff_exists'.mp filled
          rw [found]
          rfl

theorem eval_part_conjuncts (tree : Logic (Option Term)) :
    (tree.conjuncts.map (evalPart holds)).foldr (Option.merge (· && ·)) none =
      evalPart holds tree := by
  cases tree <;> simp [conjuncts, evalPart, eval_part_all]

theorem eval_part_disjuncts (tree : Logic (Option Term)) :
    (tree.disjuncts.map (evalPart holds)).foldr (Option.merge (· || ·)) none =
      evalPart holds tree := by
  cases tree <;> simp [disjuncts, evalPart, eval_part_any]

theorem eval_part_conj (items : List (Logic (Option Term))) :
    evalPart holds (conj items) =
      (items.map (evalPart holds)).foldr (Option.merge (· && ·)) none := by
  rw [← fold_merge_members _ eval_part_conjuncts, conj]
  split
  · rename_i item single
    simp [single]
  · rw [evalPart, eval_part_all]

theorem eval_part_disj (items : List (Logic (Option Term))) :
    evalPart holds (disj items) =
      (items.map (evalPart holds)).foldr (Option.merge (· || ·)) none := by
  rw [← fold_merge_members _ eval_part_disjuncts, disj]
  split
  · rename_i item single
    simp [single]
  · rw [evalPart, eval_part_any]

theorem eval_part_negate (tree : Logic (Option Term)) :
    evalPart holds (negate tree) = (evalPart holds tree).map (!·) := by
  cases tree with
  | not item => simp [negate, evalPart, Function.comp_def]
  | term value => rfl
  | all items => rfl
  | any items => rfl

theorem eval_part_eq_none_iff (tree : Logic (Option Term)) :
    evalPart holds tree = none ↔ tree.isVoid = true := by
  induction tree using induct with
  | term value => simp [evalPart, isVoid, terms]
  | all items members =>
      rw [evalPart, eval_part_all, fold_merge_eq_none_iff, List.forall_mem_map, isVoid, terms,
        terms_of_all, List.all_flatMap, List.all_eq_true]
      exact forall₂_congr members
  | any items members =>
      rw [evalPart, eval_part_any, fold_merge_eq_none_iff, List.forall_mem_map, isVoid, terms,
        terms_of_all, List.all_flatMap, List.all_eq_true]
      exact forall₂_congr members
  | not item inner => rw [evalPart, Option.map_eq_none_iff, inner, isVoid, isVoid, terms]

theorem eval_group {join : Bool → Bool → Bool} {group : List (Logic Term) → Logic Term}
    {eval : Logic Term → Bool} {kept : List (Logic Term)}
    (single : ∀ item, eval (group [item]) = eval item)
    (several : ∀ item rest, rest ≠ [] →
      eval (group (item :: rest)) = join (eval item) (eval (group rest))) :
    (group? group kept).map eval =
      (kept.map fun item => some (eval item)).foldr (Option.merge join) none := by
  induction kept with
  | nil => rfl
  | cons item rest induction =>
      rw [List.map_cons, List.foldr_cons, ← induction]
      cases rest with
      | nil => simp [group?, single]
      | cons second later => simp [group?, several item (second :: later) (by simp)]

theorem flatten_members {join : Bool → Bool → Bool} (items : List (Logic (Option Term)))
    (members : ∀ item ∈ items, (flatten item).map (eval holds) = evalPart holds item) :
    ((items.flatMap fun item => (flatten item).toList).map fun item =>
      some (eval holds item)).foldr (Option.merge join) none =
      (items.map (evalPart holds)).foldr (Option.merge join) none := by
  induction items with
  | nil => rfl
  | cons item rest induction =>
      obtain ⟨first, others⟩ := List.forall_mem_cons.mp members
      rw [List.flatMap_cons, List.map_append, List.map_cons, List.foldr_cons, ← induction others,
        ← first]
      cases flatten item <;> simp

/-- Dropping absent terms keeps the meaning of what is there. -/
theorem flatten_eval (tree : Logic (Option Term)) :
    (flatten tree).map (eval holds) = evalPart holds tree := by
  induction tree using induct with
  | term value => cases value <;> rfl
  | all items members =>
      rw [flatten, flatten_all, evalPart, eval_part_all, ← flatten_members items members]
      exact eval_group (fun item => by simp) (fun item rest _ => by simp)
  | any items members =>
      rw [flatten, flatten_all, evalPart, eval_part_any, ← flatten_members items members]
      exact eval_group (fun item => by simp) (fun item rest _ => by simp)
  | not item inner =>
      rw [flatten, evalPart, ← inner, Option.map_map, Option.map_map]
      congr 1
      funext tree
      exact eval_negate holds tree

theorem normal_flatten (tree : Logic (Option Term)) : ∀ kept ∈ flatten tree, kept.Normal := by
  have group {join : List (Logic Term) → Logic Term}
      (normal : ∀ {items}, items ≠ [] → (∀ item ∈ items, Normal item) → Normal (join items))
      {items : List (Logic (Option Term))} (members : ∀ item ∈ items, ∀ kept ∈ flatten item, kept.Normal) :
      ∀ kept ∈ group? join (flattenAll items), kept.Normal := by
    intro kept found
    rw [flatten_all, group?] at found
    split at found
    · cases found
    · rename_i filled
      cases found
      refine normal (by simpa using filled) fun item member => ?_
      obtain ⟨source, inside, place⟩ := List.mem_flatMap.mp member
      exact members source inside item (by simpa using place)
  induction tree using induct with
  | term value =>
      intro kept found
      obtain ⟨value, _, rfl⟩ := Option.map_eq_some_iff.mp found
      exact .term value
  | all items members => exact group .conj members
  | any items members => exact group .disj members
  | not item inner =>
      intro kept found
      obtain ⟨tree, left, rfl⟩ := Option.map_eq_some_iff.mp found
      exact (inner tree left).negate

theorem eval_part_map_some {tree : Logic Term} (normal : tree.Normal) :
    evalPart holds (tree.map some) = some (eval holds tree) := by
  rw [← flatten_eval, flatten_map_some normal, Option.map_some]

/-- Where absent terms are neutral they may be taken to be true. -/
theorem eval_part_of_neutral {tree : Logic (Option Term)} (neutral : tree.isNeutral = true) :
    (evalPart holds tree).getD true = eval (Option.all holds) tree := by
  induction tree using induct with
  | term value => cases value <;> rfl
  | all items members =>
      rw [isNeutral, are_neutral, List.all_eq_true] at neutral
      rw [evalPart, eval_part_all, fold_and_get_d, eval, eval_all, List.all_map]
      rw [Bool.eq_iff_iff, List.all_eq_true, List.all_eq_true]
      exact forall₂_congr fun item member => by rw [← members item member (neutral item member)]; rfl
  | any items members =>
      rw [isNeutral, are_neutral, Bool.and_eq_true, Bool.and_eq_true, List.all_eq_true] at neutral
      obtain ⟨⟨filled, neutral⟩, alike⟩ := neutral
      have same (item : Logic (Option Term)) (member : item ∈ items) :=
        members item member (neutral item member)
      rw [evalPart, eval_part_any, eval, eval_any]
      rcases Bool.or_eq_true_iff.mp alike with void | present
      · have absent : ∀ value ∈ items.map (evalPart holds), value = none := by
          rw [List.forall_mem_map]
          exact fun item member =>
            (eval_part_eq_none_iff item).mpr (List.all_eq_true.mp void item member)
        obtain ⟨item, inside⟩ := List.exists_mem_of_ne_nil items (by simpa using filled)
        rw [fold_merge_eq_none_iff.mpr absent]
        refine (List.any_eq_true.mpr ⟨item, inside, ?_⟩).symm
        rw [← same item inside, absent _ (List.mem_map_of_mem inside)]
        rfl
      · have present : ∀ value ∈ items.map (evalPart holds), value ≠ none := by
          rw [List.forall_mem_map]
          intro item member absent
          rw [Bool.not_eq_true', List.any_eq_false] at present
          exact present item member ((eval_part_eq_none_iff item).mp absent)
        rw [fold_or_get_d (by simpa using filled) present, List.any_map, Bool.eq_iff_iff,
          List.any_eq_true, List.any_eq_true]
        exact exists_congr fun item => and_congr_right fun member => by
          rw [← same item member]
          rfl
  | not item inner =>
      rw [isNeutral, Bool.and_eq_true, Bool.not_eq_true'] at neutral
      have present : evalPart holds item ≠ none := by
        rw [Ne, eval_part_eq_none_iff, neutral.2]
        decide
      obtain ⟨value, found⟩ := Option.ne_none_iff_exists'.mp present
      rw [evalPart, eval, ← inner neutral.1, found]
      rfl

theorem neutral_of_present {tree : Logic (Option Term)} (normal : tree.Normal)
    (present : ∀ value ∈ tree.terms, value ≠ none) : tree.isNeutral = true := by
  have filled {part : Logic (Option Term)} (normal : part.Normal)
      (present : ∀ value ∈ part.terms, value ≠ none) : part.isVoid = false := by
    obtain ⟨value, member⟩ := List.exists_mem_of_ne_nil _ normal.terms_ne_nil
    exact List.all_eq_false.mpr ⟨value, member, by simpa using present value member⟩
  induction normal with
  | term value => rfl
  | all _ _ _ members =>
      rw [terms, terms_of_all, List.forall_mem_flatMap] at present
      rw [isNeutral, are_neutral, List.all_eq_true]
      exact fun item member => members item member (present item member)
  | @any items long normal _ members =>
      rw [terms, terms_of_all, List.forall_mem_flatMap] at present
      have some : items.isEmpty = false := by
        rw [List.isEmpty_eq_false_iff]
        exact List.ne_nil_of_length_pos (by omega)
      have neutral : items.all isNeutral = true :=
        List.all_eq_true.mpr fun item member => members item member (present item member)
      have full : items.any isVoid = false := List.any_eq_false.mpr fun item member => by
        rw [filled (normal item member) (present item member)]
        decide
      simp [isNeutral, are_neutral, some, neutral, full]
  | not normal _ inner =>
      rw [terms] at present
      rw [isNeutral, inner present, filled normal present]
      rfl

end DetectionRules.Logic
