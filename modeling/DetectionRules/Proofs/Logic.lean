import DetectionRules.Logic
import DetectionRules.Proofs.Success
import Mathlib

/-!
Laws of logic trees. A function that recurs over a tree and a list of trees at
once is first given as a function on lists; after that the laws speak of lists
only. `Normal` is the form that `conj`, `disj` and `negate` keep.

Groups side by side. Between members of a group, a group of the same kind cannot be told from
its members; a group of one member and a negation in a negation can.
-/

namespace DetectionRules.Logic

variable {Term Other : Type}

/-- Induction over a tree, with what is to be shown given for all members of a group. -/
@[elab_as_elim]
theorem induct {motive : Logic Term → Prop} (term : ∀ value, motive (.term value))
    (all : ∀ items, (∀ item ∈ items, motive item) → motive (.all items))
    (any : ∀ items, (∀ item ∈ items, motive item) → motive (.any items))
    (not : ∀ item, motive item → motive (.not item)) (tree : Logic Term) : motive tree := by
  refine @Logic.rec Term motive (fun items => ∀ item ∈ items, motive item) term all any not
    ?_ ?_ tree
  · intro item member
    cases member
  · intro item rest first others other member
    rcases List.mem_cons.mp member with rfl | member
    · exact first
    · exact others other member

theorem terms_of_all (items : List (Logic Term)) : termsOfAll items = items.flatMap terms := by
  induction items with
  | nil => rfl
  | cons item rest induction => rw [termsOfAll, induction, List.flatMap_cons]

theorem mem_terms_of_all {items : List (Logic Term)} {value : Term} :
    value ∈ termsOfAll items ↔ ∃ item ∈ items, value ∈ terms item := by
  rw [terms_of_all, List.mem_flatMap]

theorem map_all (f : Term → Other) (items : List (Logic Term)) :
    mapAll f items = items.map (map f) := by
  induction items with
  | nil => rfl
  | cons item rest induction => rw [mapAll, induction, List.map_cons]

theorem bind_all (tree : Term → Logic Other) (items : List (Logic Term)) :
    bindAll tree items = items.map (bind tree) := by
  induction items with
  | nil => rfl
  | cons item rest induction => rw [bindAll, induction, List.map_cons]

theorem eval_all (holds : Term → Bool) (items : List (Logic Term)) :
    evalAll holds items = items.all (eval holds) := by
  induction items with
  | nil => rfl
  | cons item rest induction => rw [evalAll, induction, List.all_cons]

theorem eval_any (holds : Term → Bool) (items : List (Logic Term)) :
    evalAny holds items = items.any (eval holds) := by
  induction items with
  | nil => rfl
  | cons item rest induction => rw [evalAny, induction, List.any_cons]

theorem any_has_empty_group (items : List (Logic Term)) :
    anyHasEmptyGroup items = items.any hasEmptyGroup := by
  induction items with
  | nil => rfl
  | cons item rest induction => rw [anyHasEmptyGroup, induction, List.any_cons]

theorem filled_group_iff {items : List (Logic Term)} :
    (items.isEmpty || anyHasEmptyGroup items) = false ↔
      items ≠ [] ∧ ∀ item ∈ items, hasEmptyGroup item = false := by
  rw [Bool.or_eq_false_iff, any_has_empty_group, List.any_eq_false]
  simp

theorem flatten_all (items : List (Logic (Option Term))) :
    flattenAll items = items.flatMap fun item => (flatten item).toList := by
  induction items with
  | nil => rfl
  | cons item rest induction => rw [flattenAll, induction, List.flatMap_cons]

theorem depth_of_all_le {items : List (Logic Term)} {bound : Nat} :
    depthOfAll items ≤ bound ↔ ∀ item ∈ items, depth item ≤ bound := by
  induction items with
  | nil => simp [depthOfAll]
  | cons item rest induction => simp [depthOfAll, induction]

example : (negate (conj [.term true, disj [.term false, .not (.term true)]])).eval id = true := by
  cbv

example : (bind (fun value => .not (.term value)) (map (· + 1) (.all [.term 1, .not (.term 2)]))).terms =
    [2, 3] := by
  cbv

example : (flatten (.all [.term none, .any [.term (some 2), .not (.term (some 1))]])).map depth =
    some 3 := by
  cbv

private theorem all_congr_of_mem {Item : Type} {left right : Item → Bool} {items : List Item}
    (same : ∀ item ∈ items, left item = right item) : items.all left = items.all right := by
  induction items with
  | nil => rfl
  | cons item rest induction =>
      rw [List.all_cons, List.all_cons, same item (by simp),
        induction (by intro other member; exact same other (by simp [member]))]

private theorem any_congr_of_mem {Item : Type} {left right : Item → Bool} {items : List Item}
    (same : ∀ item ∈ items, left item = right item) : items.any left = items.any right := by
  induction items with
  | nil => rfl
  | cons item rest induction =>
      rw [List.any_cons, List.any_cons, same item (by simp),
        induction (by intro other member; exact same other (by simp [member]))]

theorem eval_conjuncts (holds : Term → Bool) (tree : Logic Term) :
    tree.conjuncts.all (eval holds) = eval holds tree := by
  cases tree <;> simp [conjuncts, eval, eval_all]

theorem eval_disjuncts (holds : Term → Bool) (tree : Logic Term) :
    tree.disjuncts.any (eval holds) = eval holds tree := by
  cases tree <;> simp [disjuncts, eval, eval_any]

@[simp]
theorem eval_conj (holds : Term → Bool) (items : List (Logic Term)) :
    eval holds (conj items) = items.all (eval holds) := by
  have flat : (items.flatMap conjuncts).all (eval holds) = items.all (eval holds) := by
    simp only [List.all_flatMap, eval_conjuncts]
  rw [← flat, conj]
  split
  · rename_i item single
    simp [single]
  · rw [eval, eval_all]

@[simp]
theorem eval_disj (holds : Term → Bool) (items : List (Logic Term)) :
    eval holds (disj items) = items.any (eval holds) := by
  have flat : (items.flatMap disjuncts).any (eval holds) = items.any (eval holds) := by
    simp only [List.any_flatMap, eval_disjuncts]
  rw [← flat, disj]
  split
  · rename_i item single
    simp [single]
  · rw [eval, eval_any]

@[simp]
theorem eval_negate (holds : Term → Bool) (tree : Logic Term) :
    eval holds (negate tree) = !eval holds tree := by
  cases tree <;> simp [negate, eval]

theorem eval_bind (holds : Other → Bool) (tree : Term → Logic Other) (expression : Logic Term) :
    eval holds (bind tree expression) = eval (fun value => eval holds (tree value)) expression := by
  induction expression using induct with
  | term value => rfl
  | all items members =>
      rw [bind, bind_all, eval_conj, eval, eval_all, List.all_map]
      exact all_congr_of_mem members
  | any items members =>
      rw [bind, bind_all, eval_disj, eval, eval_any, List.any_map]
      exact any_congr_of_mem members
  | not item inner => rw [bind, eval_negate, eval, inner]

theorem eval_map (holds : Other → Bool) (f : Term → Other) (expression : Logic Term) :
    eval holds (map f expression) = eval (fun value => holds (f value)) expression := by
  induction expression using induct with
  | term value => rfl
  | all items members =>
      rw [map, map_all, eval, eval, eval_all, eval_all, List.all_map]
      exact all_congr_of_mem members
  | any items members =>
      rw [map, map_all, eval, eval, eval_any, eval_any, List.any_map]
      exact any_congr_of_mem members
  | not item inner => rw [map, eval, eval, inner]

/-- Trees whose terms agree in every place mean the same. -/
theorem eval_congr {left right : Term → Bool} (expression : Logic Term)
    (same : ∀ value ∈ expression.terms, left value = right value) :
    eval left expression = eval right expression := by
  induction expression using induct with
  | term value => exact same value (by simp [terms])
  | all items members =>
      rw [eval, eval, eval_all, eval_all]
      refine all_congr_of_mem fun item member => members item member fun value inside => ?_
      exact same value (mem_terms_of_all.mpr ⟨item, member, inside⟩)
  | any items members =>
      rw [eval, eval, eval_any, eval_any]
      refine any_congr_of_mem fun item member => members item member fun value inside => ?_
      exact same value (mem_terms_of_all.mpr ⟨item, member, inside⟩)
  | not item inner => rw [eval, eval, inner (by simpa only [terms] using same)]

theorem terms_conjuncts (tree : Logic Term) : tree.conjuncts.flatMap terms = terms tree := by
  cases tree <;> simp [conjuncts, terms, terms_of_all]

theorem terms_disjuncts (tree : Logic Term) : tree.disjuncts.flatMap terms = terms tree := by
  cases tree <;> simp [disjuncts, terms, terms_of_all]

@[simp]
theorem terms_conj (items : List (Logic Term)) : terms (conj items) = items.flatMap terms := by
  have flat : (items.flatMap conjuncts).flatMap terms = items.flatMap terms := by
    simp only [List.flatMap_assoc, terms_conjuncts]
  rw [← flat, conj]
  split
  · rename_i item single
    simp [single]
  · rw [terms, terms_of_all]

@[simp]
theorem terms_disj (items : List (Logic Term)) : terms (disj items) = items.flatMap terms := by
  have flat : (items.flatMap disjuncts).flatMap terms = items.flatMap terms := by
    simp only [List.flatMap_assoc, terms_disjuncts]
  rw [← flat, disj]
  split
  · rename_i item single
    simp [single]
  · rw [terms, terms_of_all]

@[simp]
theorem terms_negate (tree : Logic Term) : terms (negate tree) = terms tree := by
  cases tree <;> rfl

theorem terms_bind (tree : Term → Logic Other) (expression : Logic Term) :
    terms (bind tree expression) = expression.terms.flatMap fun value => terms (tree value) := by
  induction expression using induct with
  | term value => simp [bind, terms]
  | all items members =>
      rw [bind, bind_all, terms_conj, terms, terms_of_all, List.flatMap_map, List.flatMap_assoc]
      exact List.flatMap_congr members
  | any items members =>
      rw [bind, bind_all, terms_disj, terms, terms_of_all, List.flatMap_map, List.flatMap_assoc]
      exact List.flatMap_congr members
  | not item inner => rw [bind, terms_negate, terms, inner]

theorem terms_map (f : Term → Other) (expression : Logic Term) :
    terms (map f expression) = expression.terms.map f := by
  induction expression using induct with
  | term value => rfl
  | all items members =>
      rw [map, map_all, terms, terms, terms_of_all, terms_of_all, List.flatMap_map, List.map_flatMap]
      exact List.flatMap_congr members
  | any items members =>
      rw [map, map_all, terms, terms, terms_of_all, terms_of_all, List.flatMap_map, List.map_flatMap]
      exact List.flatMap_congr members
  | not item inner => rw [map, terms, terms, inner]

theorem depth_pos (tree : Logic Term) : 0 < depth tree := by
  cases tree <;> simp [depth]

theorem depth_of_conjunct {tree item : Logic Term} (member : item ∈ tree.conjuncts) :
    depth item ≤ depth tree := by
  cases tree with
  | all items =>
      have inside := depth_of_all_le.mp (Nat.le_refl (depthOfAll items)) item member
      rw [depth]
      omega
  | term value => simp_all [conjuncts]
  | any items => simp_all [conjuncts]
  | not tree => simp_all [conjuncts]

theorem depth_of_disjunct {tree item : Logic Term} (member : item ∈ tree.disjuncts) :
    depth item ≤ depth tree := by
  cases tree with
  | any items =>
      have inside := depth_of_all_le.mp (Nat.le_refl (depthOfAll items)) item member
      rw [depth]
      omega
  | term value => simp_all [disjuncts]
  | all items => simp_all [disjuncts]
  | not tree => simp_all [disjuncts]

theorem depth_conj_le {items : List (Logic Term)} {bound : Nat}
    (bounded : ∀ item ∈ items, depth item ≤ bound) : depth (conj items) ≤ bound + 1 := by
  have flat : ∀ item ∈ items.flatMap conjuncts, depth item ≤ bound := by
    intro item member
    obtain ⟨tree, inside, conjunct⟩ := List.mem_flatMap.mp member
    exact (depth_of_conjunct conjunct).trans (bounded tree inside)
  rw [conj]
  split
  · rename_i item single
    exact (flat item (by simp [single])).trans (by omega)
  · rw [depth]
    exact Nat.succ_le_succ (depth_of_all_le.mpr flat)

theorem depth_disj_le {items : List (Logic Term)} {bound : Nat}
    (bounded : ∀ item ∈ items, depth item ≤ bound) : depth (disj items) ≤ bound + 1 := by
  have flat : ∀ item ∈ items.flatMap disjuncts, depth item ≤ bound := by
    intro item member
    obtain ⟨tree, inside, disjunct⟩ := List.mem_flatMap.mp member
    exact (depth_of_disjunct disjunct).trans (bounded tree inside)
  rw [disj]
  split
  · rename_i item single
    exact (flat item (by simp [single])).trans (by omega)
  · rw [depth]
    exact Nat.succ_le_succ (depth_of_all_le.mpr flat)

theorem depth_negate_le (tree : Logic Term) : depth (negate tree) ≤ depth tree + 1 := by
  cases tree <;> simp [negate, depth]
  omega

theorem depth_bind_le {tree : Term → Logic Other} {added : Nat}
    (bounded : ∀ value, depth (tree value) ≤ added + 1) (expression : Logic Term) :
    depth (bind tree expression) ≤ depth expression + added := by
  induction expression using induct with
  | term value =>
      rw [bind, depth]
      exact (bounded value).trans (by omega)
  | all items members =>
      rw [bind, bind_all, depth, Nat.add_right_comm]
      refine depth_conj_le fun item member => ?_
      obtain ⟨original, inside, rfl⟩ := List.mem_map.mp member
      have shallow := depth_of_all_le.mp (Nat.le_refl (depthOfAll items)) original inside
      exact (members original inside).trans (by omega)
  | any items members =>
      rw [bind, bind_all, depth, Nat.add_right_comm]
      refine depth_disj_le fun item member => ?_
      obtain ⟨original, inside, rfl⟩ := List.mem_map.mp member
      have shallow := depth_of_all_le.mp (Nat.le_refl (depthOfAll items)) original inside
      exact (members original inside).trans (by omega)
  | not item inner =>
      rw [bind, depth]
      exact (depth_negate_le _).trans (by omega)

theorem terms_ne_nil_of_filled {tree : Logic Term} (filled : tree.hasEmptyGroup = false) :
    tree.terms ≠ [] := by
  induction tree using induct with
  | term value => simp [terms]
  | all items members =>
      obtain ⟨some, each⟩ := filled_group_iff.mp filled
      obtain ⟨first, rest, rfl⟩ := List.exists_cons_of_ne_nil some
      simp [terms, terms_of_all, members first, each first]
  | any items members =>
      obtain ⟨some, each⟩ := filled_group_iff.mp filled
      obtain ⟨first, rest, rfl⟩ := List.exists_cons_of_ne_nil some
      simp [terms, terms_of_all, members first, each first]
  | not item inner =>
      rw [terms]
      exact inner filled

theorem conjuncts_of_filled {tree : Logic Term} (filled : tree.hasEmptyGroup = false) :
    tree.conjuncts ≠ [] ∧ ∀ item ∈ tree.conjuncts, item.hasEmptyGroup = false := by
  cases tree with
  | all items => exact filled_group_iff.mp filled
  | term value => simp [conjuncts, filled]
  | any items => simp [conjuncts, filled]
  | not item => simp [conjuncts, filled]

theorem filled_conj {items : List (Logic Term)} (some : items ≠ [])
    (filled : ∀ item ∈ items, item.hasEmptyGroup = false) : (conj items).hasEmptyGroup = false := by
  have parts : ∀ part ∈ items.flatMap conjuncts, part.hasEmptyGroup = false := by
    intro part member
    obtain ⟨item, inside, place⟩ := List.mem_flatMap.mp member
    exact (conjuncts_of_filled (filled item inside)).2 part place
  rw [conj]
  split
  · rename_i part single
    exact parts part (by simp [single])
  · obtain ⟨first, rest, rfl⟩ := List.exists_cons_of_ne_nil some
    have one := (conjuncts_of_filled (filled first (by simp))).1
    exact filled_group_iff.mpr ⟨by simp [one], parts⟩

theorem term_mem_conjuncts_conj {items : List (Logic Term)} {value : Term}
    (member : term value ∈ items) : term value ∈ (conj items).conjuncts := by
  have inside : term value ∈ items.flatMap conjuncts :=
    List.mem_flatMap.mpr ⟨term value, member, by simp [conjuncts]⟩
  rw [conj]
  split
  · rename_i item single
    rw [single, List.mem_singleton] at inside
    simp [← inside, conjuncts]
  · exact inside

def isConjunction : Logic Term → Bool
  | all _ => true
  | _ => false

def isNegation : Logic Term → Bool
  | not _ => true
  | _ => false

/-- No group of fewer than two members, no group inside a group of its own kind and no negation
inside a negation. -/
inductive Normal : Logic Term → Prop
  | term (value : Term) : Normal (.term value)
  | all {items : List (Logic Term)} : 2 ≤ items.length → (∀ item ∈ items, Normal item) →
      (∀ item ∈ items, item.isConjunction = false) → Normal (.all items)
  | any {items : List (Logic Term)} : 2 ≤ items.length → (∀ item ∈ items, Normal item) →
      (∀ item ∈ items, item.isDisjunction = false) → Normal (.any items)
  | not {item : Logic Term} : Normal item → item.isNegation = false → Normal (.not item)

theorem conjuncts_of_not_conjunction {tree : Logic Term} (other : tree.isConjunction = false) :
    tree.conjuncts = [tree] := by
  cases tree <;> simp_all [conjuncts, isConjunction]

theorem disjuncts_of_not_disjunction {tree : Logic Term} (other : tree.isDisjunction = false) :
    tree.disjuncts = [tree] := by
  cases tree <;> simp_all [disjuncts, isDisjunction]

namespace Normal

theorem conjunct {tree item : Logic Term} (normal : Normal tree) (member : item ∈ tree.conjuncts) :
    Normal item ∧ item.isConjunction = false := by
  cases normal with
  | all _ members flat => exact ⟨members item member, flat item member⟩
  | term value =>
      rw [conjuncts, List.mem_singleton] at member
      · exact member ▸ ⟨.term value, rfl⟩
      · simp
  | any long members flat =>
      rw [conjuncts, List.mem_singleton] at member
      · exact member ▸ ⟨.any long members flat, rfl⟩
      · simp
  | not inner single =>
      rw [conjuncts, List.mem_singleton] at member
      · exact member ▸ ⟨.not inner single, rfl⟩
      · simp

theorem disjunct {tree item : Logic Term} (normal : Normal tree) (member : item ∈ tree.disjuncts) :
    Normal item ∧ item.isDisjunction = false := by
  cases normal with
  | any _ members flat => exact ⟨members item member, flat item member⟩
  | term value =>
      rw [disjuncts, List.mem_singleton] at member
      · exact member ▸ ⟨.term value, rfl⟩
      · simp
  | all long members flat =>
      rw [disjuncts, List.mem_singleton] at member
      · exact member ▸ ⟨.all long members flat, rfl⟩
      · simp
  | not inner single =>
      rw [disjuncts, List.mem_singleton] at member
      · exact member ▸ ⟨.not inner single, rfl⟩
      · simp

theorem conjuncts_ne_nil {tree : Logic Term} (normal : Normal tree) : tree.conjuncts ≠ [] := by
  cases normal with
  | all long _ _ =>
      intro empty
      simp [conjuncts] at empty
      simp [empty] at long
  | term value => simp [conjuncts]
  | any _ _ _ => simp [conjuncts]
  | not _ _ => simp [conjuncts]

theorem disjuncts_ne_nil {tree : Logic Term} (normal : Normal tree) : tree.disjuncts ≠ [] := by
  cases normal with
  | any long _ _ =>
      intro empty
      simp [disjuncts] at empty
      simp [empty] at long
  | term value => simp [disjuncts]
  | all _ _ _ => simp [disjuncts]
  | not _ _ => simp [disjuncts]

private theorem two_le_of_not_single {Item : Type} {items : List Item} (some : items ≠ [])
    (several : ∀ item, items ≠ [item]) : 2 ≤ items.length := by
  match items, some, several with
  | [item], _, several => exact absurd rfl (several item)
  | _ :: _ :: _, _, _ => simp

theorem conj {items : List (Logic Term)} (some : items ≠ [])
    (members : ∀ item ∈ items, Normal item) : Normal (Logic.conj items) := by
  have flat : ∀ item ∈ items.flatMap conjuncts, Normal item ∧ item.isConjunction = false := by
    intro item member
    obtain ⟨tree, inside, conjunct⟩ := List.mem_flatMap.mp member
    exact (members tree inside).conjunct conjunct
  have filled : items.flatMap conjuncts ≠ [] := by
    obtain ⟨first, rest, rfl⟩ := List.exists_cons_of_ne_nil some
    simp [(members first (by simp)).conjuncts_ne_nil]
  rw [Logic.conj]
  split
  · rename_i item single
    exact (flat item (by simp [single])).1
  · rename_i several
    exact .all (two_le_of_not_single filled several) (fun item member => (flat item member).1)
      (fun item member => (flat item member).2)

theorem disj {items : List (Logic Term)} (some : items ≠ [])
    (members : ∀ item ∈ items, Normal item) : Normal (Logic.disj items) := by
  have flat : ∀ item ∈ items.flatMap disjuncts, Normal item ∧ item.isDisjunction = false := by
    intro item member
    obtain ⟨tree, inside, disjunct⟩ := List.mem_flatMap.mp member
    exact (members tree inside).disjunct disjunct
  have filled : items.flatMap disjuncts ≠ [] := by
    obtain ⟨first, rest, rfl⟩ := List.exists_cons_of_ne_nil some
    simp [(members first (by simp)).disjuncts_ne_nil]
  rw [Logic.disj]
  split
  · rename_i item single
    exact (flat item (by simp [single])).1
  · rename_i several
    exact .any (two_le_of_not_single filled several) (fun item member => (flat item member).1)
      (fun item member => (flat item member).2)

theorem negate {tree : Logic Term} (normal : Normal tree) : Normal (Logic.negate tree) := by
  cases normal with
  | not inner _ => exact inner
  | term value => exact .not (.term value) rfl
  | all long members flat => exact .not (.all long members flat) rfl
  | any long members flat => exact .not (.any long members flat) rfl

private theorem bind_members {tree : Term → Logic Other} {items : List (Logic Term)}
    (members : ∀ item ∈ items, hasEmptyGroup item = false →
      (∀ value ∈ terms item, Normal (tree value)) → Normal (Logic.bind tree item))
    (filled : ∀ item ∈ items, hasEmptyGroup item = false)
    (normal : ∀ value ∈ termsOfAll items, Normal (tree value)) :
    ∀ item ∈ items.map (Logic.bind tree), Normal item := by
  intro item member
  obtain ⟨original, inside, rfl⟩ := List.mem_map.mp member
  exact members original inside (filled original inside) fun value place =>
    normal value (mem_terms_of_all.mpr ⟨original, inside, place⟩)

/-- Trees put in the place of terms leave no empty group unless one was there before. -/
theorem bind {tree : Term → Logic Other} {expression : Logic Term}
    (filled : expression.hasEmptyGroup = false)
    (normal : ∀ value ∈ expression.terms, Normal (tree value)) :
    Normal (Logic.bind tree expression) := by
  induction expression using induct with
  | term value => exact normal value (by simp [terms])
  | all items members =>
      obtain ⟨some, each⟩ := filled_group_iff.mp filled
      rw [Logic.bind, bind_all]
      exact Normal.conj (by simpa using some) (bind_members members each normal)
  | any items members =>
      obtain ⟨some, each⟩ := filled_group_iff.mp filled
      rw [Logic.bind, bind_all]
      exact Normal.disj (by simpa using some) (bind_members members each normal)
  | not item inner =>
      rw [hasEmptyGroup] at filled
      exact (inner filled (by simpa only [terms] using normal)).negate

end Normal

theorem conj_single {tree : Logic Term} (normal : Normal tree) : conj [tree] = tree := by
  cases normal with
  | @all items long _ _ =>
      rw [conj, List.flatMap_singleton, conjuncts]
      split
      · simp at long
      · rfl
  | term value => rfl
  | any _ _ _ => rfl
  | not _ _ => rfl

theorem disj_single {tree : Logic Term} (normal : Normal tree) : disj [tree] = tree := by
  cases normal with
  | @any items long _ _ =>
      rw [disj, List.flatMap_singleton, disjuncts]
      split
      · simp at long
      · rfl
  | term value => rfl
  | all _ _ _ => rfl
  | not _ _ => rfl

private theorem flat_map_singletons {Item : Type} {f : Item → List Item} {items : List Item}
    (single : ∀ item ∈ items, f item = [item]) : items.flatMap f = items := by
  rw [List.flatMap_congr single]
  simp

theorem conj_flat {items : List (Logic Term)} (long : 2 ≤ items.length)
    (flat : ∀ item ∈ items, item.isConjunction = false) : conj items = all items := by
  have same : items.flatMap conjuncts = items :=
    flat_map_singletons fun item member => conjuncts_of_not_conjunction (flat item member)
  rw [conj, same]
  split
  · simp at long
  · rfl

theorem disj_flat {items : List (Logic Term)} (long : 2 ≤ items.length)
    (flat : ∀ item ∈ items, item.isDisjunction = false) : disj items = any items := by
  have same : items.flatMap disjuncts = items :=
    flat_map_singletons fun item member => disjuncts_of_not_disjunction (flat item member)
  rw [disj, same]
  split
  · simp at long
  · rfl

theorem negate_single {item : Logic Term} (single : item.isNegation = false) :
    negate item = not item := by
  cases item <;> simp_all [negate, isNegation]

/-- Trees in the place of their own terms change nothing. -/
theorem bind_term {tree : Logic Term} (normal : Normal tree) : bind term tree = tree := by
  induction normal with
  | term value => rfl
  | @all items long _ flat members =>
      rw [bind, bind_all, List.map_congr_left members, List.map_id']
      exact conj_flat long flat
  | @any items long _ flat members =>
      rw [bind, bind_all, List.map_congr_left members, List.map_id']
      exact disj_flat long flat
  | not _ single inner =>
      rw [bind, inner]
      exact negate_single single

theorem conj_conjuncts {tree : Logic Term} (normal : Normal tree) : conj tree.conjuncts = tree := by
  cases normal with
  | all long _ flat => exact conj_flat long flat
  | term value => rfl
  | any _ _ _ => rfl
  | not _ _ => rfl

theorem conjuncts_conj {parts : List (Logic Term)} (normal : ∀ part ∈ parts, Normal part) :
    (conj parts).conjuncts = parts.flatMap conjuncts := by
  rw [conj]
  split
  · rename_i item single
    obtain ⟨part, inside, member⟩ : ∃ part ∈ parts, item ∈ part.conjuncts :=
      List.mem_flatMap.mp (by simp [single])
    rw [single]
    exact conjuncts_of_not_conjunction ((normal part inside).conjunct member).2
  · rfl

theorem conj_append_conj {items parts : List (Logic Term)}
    (normal : ∀ part ∈ parts, Normal part) : conj (items ++ [conj parts]) = conj (items ++ parts) := by
  have same : (items ++ [conj parts]).flatMap conjuncts = (items ++ parts).flatMap conjuncts := by
    rw [List.flatMap_append, List.flatMap_append, List.flatMap_singleton, conjuncts_conj normal]
  rw [conj, same, conj]

theorem conj_conj_cons {parts items : List (Logic Term)}
    (normal : ∀ part ∈ parts, Normal part) : conj (conj parts :: items) = conj (parts ++ items) := by
  have same : (conj parts :: items).flatMap conjuncts = (parts ++ items).flatMap conjuncts := by
    rw [List.flatMap_cons, List.flatMap_append, conjuncts_conj normal]
  rw [conj, same, conj]

theorem bind_conj (tree : Term → Logic Other) {items : List (Logic Term)}
    (flat : ∀ item ∈ items, item.isConjunction = false)
    (normal : ∀ item ∈ items, Normal (bind tree item)) :
    bind tree (conj items) = conj (items.map (bind tree)) := by
  have same : items.flatMap conjuncts = items :=
    flat_map_singletons fun item member => conjuncts_of_not_conjunction (flat item member)
  rw [conj, same]
  split
  · rename_i item
    rw [List.map_singleton, conj_single (normal item (by simp))]
  · rw [bind, bind_all]

theorem disjuncts_disj {parts : List (Logic Term)} (normal : ∀ part ∈ parts, Normal part) :
    (disj parts).disjuncts = parts.flatMap disjuncts := by
  rw [disj]
  split
  · rename_i item single
    obtain ⟨part, inside, member⟩ : ∃ part ∈ parts, item ∈ part.disjuncts :=
      List.mem_flatMap.mp (by simp [single])
    rw [single]
    exact disjuncts_of_not_disjunction ((normal part inside).disjunct member).2
  · rfl

theorem disj_map_disj {Item : Type} {parts : Item → List (Logic Term)} {items : List Item}
    (normal : ∀ item ∈ items, ∀ part ∈ parts item, Normal part) :
    disj (items.map fun item => disj (parts item)) = disj (items.flatMap parts) := by
  have same : (items.map fun item => disj (parts item)).flatMap disjuncts =
      (items.flatMap parts).flatMap disjuncts := by
    rw [List.flatMap_map, List.flatMap_assoc]
    exact List.flatMap_congr fun item member => disjuncts_disj (normal item member)
  rw [disj, same, disj]

theorem bind_conjuncts (tree : Term → Logic Other) {expression : Logic Term}
    (normal : Normal (bind tree expression)) :
    conj (expression.conjuncts.map (bind tree)) = bind tree expression := by
  cases expression with
  | all items => rw [bind, bind_all, conjuncts]
  | term value => exact conj_single normal
  | any items => exact conj_single normal
  | not item => exact conj_single normal

/-- No empty group and no group inside a group of its own kind. -/
inductive Flat : Logic Term → Prop
  | term (value : Term) : Flat (.term value)
  | all {items : List (Logic Term)} : items ≠ [] → (∀ item ∈ items, Flat item) →
      (∀ item ∈ items, item.isConjunction = false) → Flat (.all items)
  | any {items : List (Logic Term)} : items ≠ [] → (∀ item ∈ items, Flat item) →
      (∀ item ∈ items, item.isDisjunction = false) → Flat (.any items)
  | not {item : Logic Term} : Flat item → Flat (.not item)

theorem Normal.flat {tree : Logic Term} (normal : Normal tree) : Flat tree := by
  induction normal with
  | term value => exact .term value
  | all long _ single members => exact .all (List.ne_nil_of_length_pos (by omega)) members single
  | any long _ single members => exact .any (List.ne_nil_of_length_pos (by omega)) members single
  | not _ _ inner => exact .not inner

namespace Flat

theorem filled {tree : Logic Term} (flat : Flat tree) : tree.hasEmptyGroup = false := by
  induction flat with
  | term value => rfl
  | all some _ _ members | any some _ _ members =>
      exact filled_group_iff.mpr ⟨some, members⟩
  | not _ inner => rw [hasEmptyGroup, inner]

theorem conjuncts {tree : Logic Term} (flat : Flat tree) : tree.conjuncts ≠ [] ∧
    ∀ item ∈ tree.conjuncts, Flat item ∧ item.isConjunction = false := by
  cases flat with
  | all some members single => exact ⟨some, fun item member => ⟨members item member, single item member⟩⟩
  | term value => exact ⟨by simp [Logic.conjuncts], by simp [Logic.conjuncts, isConjunction, Flat.term]⟩
  | any some members single =>
      exact ⟨by simp [Logic.conjuncts],
        by simp [Logic.conjuncts, isConjunction, Flat.any some members single]⟩
  | not inner =>
      exact ⟨by simp [Logic.conjuncts], by simp [Logic.conjuncts, isConjunction, Flat.not inner]⟩

theorem disjuncts {tree : Logic Term} (flat : Flat tree) : tree.disjuncts ≠ [] ∧
    ∀ item ∈ tree.disjuncts, Flat item ∧ item.isDisjunction = false := by
  cases flat with
  | any some members single => exact ⟨some, fun item member => ⟨members item member, single item member⟩⟩
  | term value => exact ⟨by simp [Logic.disjuncts], by simp [Logic.disjuncts, isDisjunction, Flat.term]⟩
  | all some members single =>
      exact ⟨by simp [Logic.disjuncts],
        by simp [Logic.disjuncts, isDisjunction, Flat.all some members single]⟩
  | not inner =>
      exact ⟨by simp [Logic.disjuncts], by simp [Logic.disjuncts, isDisjunction, Flat.not inner]⟩

end Flat

theorem Normal.filled {tree : Logic Term} (normal : Normal tree) : tree.hasEmptyGroup = false :=
  normal.flat.filled

theorem Normal.terms_ne_nil {tree : Logic Term} (normal : Normal tree) : tree.terms ≠ [] :=
  terms_ne_nil_of_filled normal.filled

mutual

/-- The tree with the members of groups inside groups of their own kind side by side. -/
def spread : Logic Term → Logic Term
  | .term value => .term value
  | .all items => .all ((spreadAll items).flatMap conjuncts)
  | .any items => .any ((spreadAll items).flatMap disjuncts)
  | .not item => .not (spread item)

def spreadAll : List (Logic Term) → List (Logic Term)
  | [] => []
  | item :: rest => spread item :: spreadAll rest

end

theorem spread_all (items : List (Logic Term)) : spreadAll items = items.map spread := by
  induction items with
  | nil => rfl
  | cons item rest induction => rw [spreadAll, induction, List.map_cons]

theorem flat_spread {tree : Logic Term} (filled : tree.hasEmptyGroup = false) : Flat (spread tree) := by
  induction tree using induct with
  | term value => exact .term value
  | all items members =>
      obtain ⟨some, parts⟩ := filled_group_iff.mp filled
      have inside : ∀ item ∈ (items.map spread).flatMap conjuncts,
          Flat item ∧ item.isConjunction = false := by
        intro item place
        obtain ⟨original, member, place⟩ := List.mem_flatMap.mp (List.flatMap_map .. ▸ place)
        exact (members original member (parts original member)).conjuncts.2 item place
      rw [spread, spread_all]
      refine .all ?_ (fun item place => (inside item place).1) fun item place => (inside item place).2
      obtain ⟨first, others, rfl⟩ := List.exists_cons_of_ne_nil some
      simp [(members first (by simp) (parts first (by simp))).conjuncts.1]
  | any items members =>
      obtain ⟨some, parts⟩ := filled_group_iff.mp filled
      have inside : ∀ item ∈ (items.map spread).flatMap disjuncts,
          Flat item ∧ item.isDisjunction = false := by
        intro item place
        obtain ⟨original, member, place⟩ := List.mem_flatMap.mp (List.flatMap_map .. ▸ place)
        exact (members original member (parts original member)).disjuncts.2 item place
      rw [spread, spread_all]
      refine .any ?_ (fun item place => (inside item place).1) fun item place => (inside item place).2
      obtain ⟨first, others, rfl⟩ := List.exists_cons_of_ne_nil some
      simp [(members first (by simp) (parts first (by simp))).disjuncts.1]
  | not item inner => exact .not (inner filled)

theorem terms_spread (tree : Logic Term) : terms (spread tree) = terms tree := by
  induction tree using induct with
  | term value => rfl
  | all items members =>
      rw [spread, spread_all, terms, terms, terms_of_all, terms_of_all, List.flatMap_assoc,
        List.flatMap_map]
      simp only [terms_conjuncts]
      exact List.flatMap_congr members
  | any items members =>
      rw [spread, spread_all, terms, terms, terms_of_all, terms_of_all, List.flatMap_assoc,
        List.flatMap_map]
      simp only [terms_disjuncts]
      exact List.flatMap_congr members
  | not item inner => rw [spread, terms, terms, inner]

theorem eval_spread (holds : Term → Bool) (tree : Logic Term) :
    eval holds (spread tree) = eval holds tree := by
  induction tree using induct with
  | term value => rfl
  | all items members =>
      rw [spread, spread_all, eval, eval, eval_all, eval_all, List.all_flatMap, List.all_map]
      simp only [eval_conjuncts]
      exact all_congr_of_mem members
  | any items members =>
      rw [spread, spread_all, eval, eval, eval_any, eval_any, List.any_flatMap, List.any_map]
      simp only [eval_disjuncts]
      exact any_congr_of_mem members
  | not item inner => rw [spread, eval, eval, inner]

theorem depth_spread_le (tree : Logic Term) : depth (spread tree) ≤ depth tree := by
  induction tree using induct with
  | term value => exact Nat.le_refl _
  | all items members =>
      rw [spread, spread_all, depth, depth]
      refine Nat.succ_le_succ (depth_of_all_le.mpr fun item place => ?_)
      obtain ⟨original, member, place⟩ := List.mem_flatMap.mp (List.flatMap_map .. ▸ place)
      exact ((depth_of_conjunct place).trans (members original member)).trans
        (depth_of_all_le.mp (Nat.le_refl _) original member)
  | any items members =>
      rw [spread, spread_all, depth, depth]
      refine Nat.succ_le_succ (depth_of_all_le.mpr fun item place => ?_)
      obtain ⟨original, member, place⟩ := List.mem_flatMap.mp (List.flatMap_map .. ▸ place)
      exact ((depth_of_disjunct place).trans (members original member)).trans
        (depth_of_all_le.mp (Nat.le_refl _) original member)
  | not item inner =>
      rw [spread, depth, depth]
      exact Nat.succ_le_succ inner

theorem map_map {Result : Type} (f : Term → Other) (g : Other → Result) (tree : Logic Term) :
    map g (map f tree) = map (fun value => g (f value)) tree := by
  induction tree using induct with
  | term value => rfl
  | all items members =>
      rw [map, map, map, map_all, map_all, map_all, List.map_map]
      exact congrArg all (List.map_congr_left members)
  | any items members =>
      rw [map, map, map, map_all, map_all, map_all, List.map_map]
      exact congrArg any (List.map_congr_left members)
  | not item inner => rw [map, map, map, inner]

theorem map_id (tree : Logic Term) : map id tree = tree := by
  have members_of : ∀ items : List (Logic Term), (∀ item ∈ items, map id item = item) →
      items.map (map id) = items := by
    intro items same
    rw [List.map_congr_left same, List.map_id']
  induction tree using induct with
  | term value => rfl
  | all items members => rw [map, map_all, members_of items members]
  | any items members => rw [map, map_all, members_of items members]
  | not item inner => rw [map, inner]

theorem map_conjuncts (f : Term → Other) (tree : Logic Term) :
    (map f tree).conjuncts = tree.conjuncts.map (map f) := by
  cases tree <;> simp [map, conjuncts, map_all]

theorem map_disjuncts (f : Term → Other) (tree : Logic Term) :
    (map f tree).disjuncts = tree.disjuncts.map (map f) := by
  cases tree <;> simp [map, disjuncts, map_all]

theorem map_conj (f : Term → Other) (items : List (Logic Term)) :
    map f (conj items) = conj (items.map (map f)) := by
  have flat : (items.map (map f)).flatMap conjuncts = (items.flatMap conjuncts).map (map f) := by
    simp only [List.flatMap_map, List.map_flatMap, map_conjuncts]
  rw [conj, conj, flat]
  match items.flatMap conjuncts with
  | [] => rfl
  | [item] => rfl
  | first :: second :: rest => simp [map, map_all]

theorem map_disj (f : Term → Other) (items : List (Logic Term)) :
    map f (disj items) = disj (items.map (map f)) := by
  have flat : (items.map (map f)).flatMap disjuncts = (items.flatMap disjuncts).map (map f) := by
    simp only [List.flatMap_map, List.map_flatMap, map_disjuncts]
  rw [disj, disj, flat]
  match items.flatMap disjuncts with
  | [] => rfl
  | [item] => rfl
  | first :: second :: rest => simp [map, map_all]

theorem map_negate (f : Term → Other) (tree : Logic Term) :
    map f (negate tree) = negate (map f tree) := by
  cases tree <;> rfl

theorem map_bind {Result : Type} (f : Other → Result) (tree : Term → Logic Other)
    (expression : Logic Term) :
    map f (bind tree expression) = bind (fun value => map f (tree value)) expression := by
  induction expression using induct with
  | term value => rfl
  | all items members =>
      rw [bind, bind, bind_all, bind_all, map_conj, List.map_map]
      exact congrArg conj (List.map_congr_left members)
  | any items members =>
      rw [bind, bind, bind_all, bind_all, map_disj, List.map_map]
      exact congrArg disj (List.map_congr_left members)
  | not item inner => rw [bind, bind, map_negate, inner]

private theorem flatten_all_map_some {items : List (Logic Term)}
    (members : ∀ item ∈ items, flatten (map some item) = some item) :
    flattenAll (items.map (map some)) = items := by
  rw [flatten_all, List.flatMap_map]
  exact flat_map_singletons fun item member => by simp [members item member]

/-- A normal tree without absent terms is what is left of it. -/
theorem flatten_map_some {tree : Logic Term} (normal : Normal tree) :
    flatten (map some tree) = some tree := by
  induction normal with
  | term value => rfl
  | @all items long _ flat members =>
      rw [map, map_all, flatten, flatten_all_map_some members, group?, conj_flat long flat]
      cases items <;> simp at long ⊢
  | @any items long _ flat members =>
      rw [map, map_all, flatten, flatten_all_map_some members, group?, disj_flat long flat]
      cases items <;> simp at long ⊢
  | not _ single inner => rw [map, flatten, inner, Option.map_some, negate_single single]

private theorem conjuncts_beside_absent (trees : List (Logic Term)) (absent : Nat) :
    (trees.map (map some) ++ List.replicate absent (Logic.term none)).flatMap conjuncts =
      (trees.flatMap conjuncts).map (map some) ++ List.replicate absent (Logic.term none) := by
  have alone : (List.replicate absent (Logic.term (none : Option Term))).flatMap conjuncts =
      List.replicate absent (Logic.term none) := by
    apply flat_map_singletons
    intro item member
    rw [List.eq_of_mem_replicate member, conjuncts]
    simp
  rw [List.flatMap_append, alone, List.flatMap_map, List.map_flatMap]
  simp only [map_conjuncts]

private theorem flatten_all_beside_absent {items : List (Logic Term)} (absent : Nat)
    (normal : ∀ item ∈ items, Normal item) :
    flattenAll (items.map (map some) ++ List.replicate absent (Logic.term none)) = items := by
  have gone : (List.replicate absent (Logic.term (none : Option Term))).flatMap
      (fun item => (flatten item).toList) = [] := by
    rw [List.flatMap_eq_nil_iff]
    intro item member
    rw [List.eq_of_mem_replicate member]
    rfl
  rw [flatten_all, List.flatMap_append, gone, List.append_nil, ← flatten_all]
  exact flatten_all_map_some fun item member => flatten_map_some (normal item member)

theorem flatten_conj_absent {trees : List (Logic Term)} (absent : Nat) (filled : trees ≠ [])
    (normal : ∀ tree ∈ trees, Normal tree) :
    flatten (conj (trees.map (map some) ++ List.replicate absent (Logic.term none))) =
      some (conj trees) := by
  have members : ∀ item ∈ trees.flatMap conjuncts, Normal item ∧ item.isConjunction = false := by
    intro item member
    obtain ⟨tree, inside, place⟩ := List.mem_flatMap.mp member
    exact (normal tree inside).conjunct place
  have kept := flatten_all_beside_absent absent fun item member => (members item member).1
  have one : trees.flatMap conjuncts ≠ [] := by
    obtain ⟨tree, others, rfl⟩ := List.exists_cons_of_ne_nil filled
    simp [(normal tree (by simp)).conjuncts_ne_nil]
  rw [conj, conj, conjuncts_beside_absent]
  generalize trees.flatMap conjuncts = parts at members kept one
  match parts, absent with
  | [], _ => exact absurd rfl one
  | [part], 0 => exact flatten_map_some (members part (by simp)).1
  | [part], more + 1 =>
      simp only [List.map_cons, List.map_nil, List.replicate_succ, List.cons_append,
        List.nil_append] at kept ⊢
      rw [flatten, kept, group?, conj_single (members part (by simp)).1]
      rfl
  | first :: second :: others, _ =>
      have long := conj_flat (by simp) fun item member => (members item member).2
      simp only [List.map_cons, List.cons_append] at kept ⊢
      rw [flatten, kept, group?, long]
      rfl

theorem Normal.map (f : Term → Other) {tree : Logic Term} (normal : Normal tree) :
    Normal (Logic.map f tree) := by
  induction normal with
  | term value => exact .term _
  | @all items long _ flat members =>
      rw [Logic.map, map_all]
      refine .all (by simpa using long) ?_ ?_
      · intro item member
        obtain ⟨original, inside, rfl⟩ := List.mem_map.mp member
        exact members original inside
      · intro item member
        obtain ⟨original, inside, rfl⟩ := List.mem_map.mp member
        have other := flat original inside
        cases original <;> simp_all [isConjunction, Logic.map]
  | @any items long _ flat members =>
      rw [Logic.map, map_all]
      refine .any (by simpa using long) ?_ ?_
      · intro item member
        obtain ⟨original, inside, rfl⟩ := List.mem_map.mp member
        exact members original inside
      · intro item member
        obtain ⟨original, inside, rfl⟩ := List.mem_map.mp member
        have other := flat original inside
        cases original <;> simp_all [isDisjunction, Logic.map]
  | @not item _ single inner =>
      refine .not inner ?_
      cases item <;> simp_all [isNegation, Logic.map]

variable {Failure : Type}

theorem substitute_eq_bind {tree : Term → Except Failure (Logic Other)}
    {found : Term → Logic Other} {expression : Logic Term}
    (success : ∀ value ∈ expression.terms, tree value = .ok (found value)) :
    substitute tree expression = .ok (bind found expression) := by
  have members_of : ∀ items : List (Logic Term),
      (∀ item ∈ items, substitute tree item = .ok (bind found item)) →
      substituteAll tree items = .ok (bindAll found items) := by
    intro items
    induction items with
    | nil => intro _; rfl
    | cons item rest induction =>
        intro members
        rw [substituteAll, members item (by simp),
          induction (by intro other member; exact members other (by simp [member]))]
        rfl
  induction expression using induct with
  | term value => exact success value (by simp [terms])
  | all items members =>
      have all := members_of items fun item member => members item member fun value place =>
        success value (mem_terms_of_all.mpr ⟨item, member, place⟩)
      rw [substitute, all]
      rfl
  | any items members =>
      have all := members_of items fun item member => members item member fun value place =>
        success value (mem_terms_of_all.mpr ⟨item, member, place⟩)
      rw [substitute, all]
      rfl
  | not item inner =>
      rw [substitute, inner (by simpa only [terms] using success)]
      rfl

open Success (failure? failure_map)

theorem failure_substitute_all (tree : Term → Except Failure (Logic Other))
    (items : List (Logic Term)) : failure? (substituteAll tree items) =
      items.findSome? fun item => failure? (substitute tree item) := by
  induction items with
  | nil => rfl
  | cons item rest induction =>
      rw [substituteAll, List.findSome?_cons, ← induction]
      cases substitute tree item with
      | error failure => rfl
      | ok found => cases substituteAll tree rest <;> rfl

/-- A substitution fails with the failure of the first term whose tree is missing, however deep
that term stands. -/
theorem failure_substitute (tree : Term → Except Failure (Logic Other)) (expression : Logic Term) :
    failure? (substitute tree expression) =
      expression.terms.findSome? fun value => failure? (tree value) := by
  have members_of : ∀ items : List (Logic Term),
      (∀ item ∈ items, failure? (substitute tree item) =
        item.terms.findSome? fun value => failure? (tree value)) →
      failure? (substituteAll tree items) =
        (items.flatMap terms).findSome? fun value => failure? (tree value) := by
    intro items members
    rw [failure_substitute_all]
    induction items with
    | nil => rfl
    | cons item rest induction =>
        rw [List.findSome?_cons, members item (by simp), List.flatMap_cons, List.findSome?_append,
          induction fun other member => members other (by simp [member])]
        cases item.terms.findSome? fun value => failure? (tree value) <;> rfl
  induction expression using induct with
  | term value => simp [substitute, terms]
  | all items members =>
      rw [substitute, failure_map, terms, terms_of_all]
      exact members_of items members
  | any items members =>
      rw [substitute, failure_map, terms, terms_of_all]
      exact members_of items members
  | not item inner => rw [substitute, failure_map, terms, inner]

end DetectionRules.Logic
