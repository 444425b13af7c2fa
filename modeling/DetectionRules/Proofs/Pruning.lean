import DetectionRules.Proofs.Logic

/-!
Trees from which terms are dropped. What is left is the other terms in their
order, in normal form, and nothing only if no term is left. Groups that fall
together may bring a group of one kind next to another, so dropping terms in two
steps is compared with dropping them at once on the members of groups, where a
group cannot be told from its members. A tree with absent terms is one from
which these are to be dropped.
-/

namespace DetectionRules.Logic

variable {Term : Type} {keep : Term → Bool}

theorem prune_all (keep : Term → Bool) (items : List (Logic Term)) :
    pruneAll keep items = items.flatMap fun item => (prune keep item).toList := by
  induction items with
  | nil => rfl
  | cons item rest induction => rw [pruneAll, induction, List.flatMap_cons]

theorem group_eq_some_iff {join : List (Logic Term) → Logic Term} {items : List (Logic Term)}
    {tree : Logic Term} : group? join items = some tree ↔ items ≠ [] ∧ join items = tree := by
  cases items <;> simp [group?]

theorem terms_group {join : List (Logic Term) → Logic Term}
    (joined : ∀ items, terms (join items) = items.flatMap terms) (items : List (Logic Term)) :
    (group? join items).toList.flatMap terms = items.flatMap terms := by
  cases items with
  | nil => rfl
  | cons first rest => simp [group?, joined]

/-- The terms that are left are those that are kept, in their order. -/
theorem terms_prune (keep : Term → Bool) (tree : Logic Term) :
    (prune keep tree).toList.flatMap terms = tree.terms.filter keep := by
  have group {items : List (Logic Term)}
      (members : ∀ item ∈ items,
        (prune keep item).toList.flatMap terms = item.terms.filter keep) :
      (pruneAll keep items).flatMap terms = (termsOfAll items).filter keep := by
    rw [prune_all, List.flatMap_assoc, terms_of_all, List.filter_flatMap]
    exact List.flatMap_congr members
  induction tree using induct with
  | term value =>
      by_cases kept : keep value = true <;> simp [prune, terms, kept]
  | all items members =>
      rw [prune, terms_group terms_conj, terms]
      exact group members
  | any items members =>
      rw [prune, terms_group terms_disj, terms]
      exact group members
  | not item inner =>
      rw [prune, terms, ← inner]
      cases prune keep item <;> simp

theorem normal_parts {items : List (Logic Term)}
    (members : ∀ item ∈ items, ∀ pruned, prune keep item = some pruned → pruned.Normal) :
    ∀ part ∈ pruneAll keep items, part.Normal := by
  intro part member
  rw [prune_all] at member
  obtain ⟨item, inside, place⟩ := List.mem_flatMap.mp member
  exact members item inside part (Option.mem_toList.mp place)

theorem normal_prune {tree pruned : Logic Term} (left : prune keep tree = some pruned) :
    pruned.Normal := by
  induction tree using induct generalizing pruned with
  | term value =>
      obtain ⟨_, rfl⟩ : keep value = true ∧ Logic.term value = pruned := by simpa [prune] using left
      exact .term value
  | all items members =>
      obtain ⟨filled, rfl⟩ := group_eq_some_iff.mp left
      exact .conj filled (normal_parts fun item member _ => members item member)
  | any items members =>
      obtain ⟨filled, rfl⟩ := group_eq_some_iff.mp left
      exact .disj filled (normal_parts fun item member _ => members item member)
  | not item inner =>
      obtain ⟨inside, found, rfl⟩ := Option.map_eq_some_iff.mp left
      exact (inner found).negate

theorem normal_prune_all (keep : Term → Bool) (items : List (Logic Term)) :
    ∀ part ∈ pruneAll keep items, part.Normal :=
  normal_parts fun _ _ _ => normal_prune

theorem terms_of_pruned {tree pruned : Logic Term} (left : prune keep tree = some pruned) :
    pruned.terms = tree.terms.filter keep := by
  have same := terms_prune keep tree
  rw [left] at same
  simpa using same

/-- A tree vanishes only with the last of its terms. -/
theorem prune_eq_none_iff {tree : Logic Term} :
    prune keep tree = none ↔ tree.terms.filter keep = [] := by
  cases found : prune keep tree with
  | none => simp [← terms_prune, found]
  | some pruned =>
      have filled := (normal_prune found).terms_ne_nil
      simp [← terms_of_pruned found, filled]

/-- What a kind of group does with parts that are groups of its kind: their members become its own.
A tree that is no group of the kind is its own only member. -/
structure Gathers (join : List (Logic Term) → Logic Term)
    (members : Logic Term → List (Logic Term)) : Prop where
  members_join : ∀ {parts}, (∀ part ∈ parts, Normal part) →
    members (join parts) = parts.flatMap members
  congr : ∀ {parts others : List (Logic Term)}, parts.flatMap members = others.flatMap members →
    join parts = join others
  pruned : ∀ keep tree, prune keep tree = group? join (pruneAll keep (members tree))

theorem group_prune_single {join : List (Logic Term) → Logic Term}
    (single : ∀ {tree}, Normal tree → join [tree] = tree) (keep : Term → Bool) (tree : Logic Term) :
    group? join (pruneAll keep [tree]) = prune keep tree := by
  rw [pruneAll, pruneAll, List.append_nil]
  cases found : prune keep tree with
  | none => rfl
  | some pruned => simp [group?, single (normal_prune found)]

theorem conj_gathers : Gathers (conj : List (Logic Term) → Logic Term) conjuncts where
  members_join := conjuncts_conj
  congr := fun same => by rw [conj, same, conj]
  pruned := fun keep tree => by
    cases tree with
    | all items => rfl
    | term value => exact (group_prune_single conj_single keep _).symm
    | any items => exact (group_prune_single conj_single keep _).symm
    | not item => exact (group_prune_single conj_single keep _).symm

theorem disj_gathers : Gathers (disj : List (Logic Term) → Logic Term) disjuncts where
  members_join := disjuncts_disj
  congr := fun same => by rw [disj, same, disj]
  pruned := fun keep tree => by
    cases tree with
    | any items => rfl
    | term value => exact (group_prune_single disj_single keep _).symm
    | all items => exact (group_prune_single disj_single keep _).symm
    | not item => exact (group_prune_single disj_single keep _).symm

namespace Gathers

variable {join : List (Logic Term) → Logic Term} {members : Logic Term → List (Logic Term)}

/-- A group of what is left of each part is the group of what is left of the members of all parts. -/
theorem group_prune (gathers : Gathers join members) (keep : Term → Bool)
    (parts : List (Logic Term)) :
    group? join (pruneAll keep (parts.flatMap members)) = group? join (pruneAll keep parts) := by
  have split : pruneAll keep (parts.flatMap members) =
      parts.flatMap fun part => pruneAll keep (members part) := by
    simp only [prune_all, List.flatMap_assoc]
  have normal (part : Logic Term) : ∀ item ∈ pruneAll keep (members part), Normal item :=
    normal_prune_all keep (members part)
  -- A part of which something is left counts as the members that are left of it.
  have left (part : Logic Term) : (prune keep part).toList = [] ↔ pruneAll keep (members part) = [] := by
    rw [gathers.pruned keep part]
    cases pruneAll keep (members part) <;> simp [group?]
  have inside (part : Logic Term) : (prune keep part).toList.flatMap members =
      (pruneAll keep (members part)).flatMap members := by
    rw [gathers.pruned keep part]
    cases found : pruneAll keep (members part) with
    | nil => rfl
    | cons first rest =>
        have each := gathers.members_join (found ▸ normal part)
        simpa [group?] using each
  have same : (pruneAll keep (parts.flatMap members)).flatMap members =
      (pruneAll keep parts).flatMap members := by
    rw [split, prune_all, List.flatMap_assoc, List.flatMap_assoc]
    exact List.flatMap_congr fun part _ => (inside part).symm
  have empty : (pruneAll keep (parts.flatMap members)).isEmpty = (pruneAll keep parts).isEmpty := by
    rw [split, prune_all, Bool.eq_iff_iff, List.isEmpty_iff, List.isEmpty_iff,
      List.flatMap_eq_nil_iff, List.flatMap_eq_nil_iff]
    exact forall₂_congr fun part _ => (left part).symm
  unfold group?
  rw [empty, gathers.congr same]

theorem prune_group (gathers : Gathers join members) (keep : Term → Bool)
    {parts : List (Logic Term)} (normal : ∀ part ∈ parts, Normal part) :
    (group? join parts).bind (prune keep) = group? join (pruneAll keep parts) := by
  cases parts with
  | nil => rfl
  | cons first rest =>
      calc
        (group? join (first :: rest)).bind (prune keep)
        _ = prune keep (join (first :: rest)) := rfl
        _ = group? join (pruneAll keep ((first :: rest).flatMap members)) := by
            rw [gathers.pruned, gathers.members_join normal]
        _ = group? join (pruneAll keep (first :: rest)) := gathers.group_prune keep _

end Gathers

theorem negate_negate {tree : Logic Term} (normal : Normal tree) : negate (negate tree) = tree := by
  cases normal with
  | not _ single => rw [negate, negate_single single]
  | term value => rfl
  | all _ _ _ => rfl
  | any _ _ _ => rfl

theorem prune_negate (keep : Term → Bool) (tree : Logic Term) :
    prune keep (negate tree) = (prune keep tree).map negate := by
  cases tree with
  | not item =>
      rw [negate, prune, Option.map_map]
      cases found : prune keep item with
      | none => rfl
      | some pruned => simp [negate_negate (normal_prune found)]
  | term value => rfl
  | all items => rfl
  | any items => rfl

/-- Terms dropped in two steps are dropped at once. -/
theorem prune_prune (also keep : Term → Bool) (tree : Logic Term) :
    (prune also tree).bind (prune keep) = prune (fun value => also value && keep value) tree := by
  have again {items : List (Logic Term)}
      (members : ∀ item ∈ items, (prune also item).bind (prune keep) =
        prune (fun value => also value && keep value) item) :
      pruneAll keep (pruneAll also items) =
        pruneAll (fun value => also value && keep value) items := by
    simp only [prune_all, List.flatMap_assoc]
    refine List.flatMap_congr fun item member => ?_
    rw [← members item member]
    cases prune also item <;> simp
  induction tree using induct with
  | term value =>
      by_cases first : also value = true <;> simp [prune, first]
  | all items members =>
      rw [prune, prune, conj_gathers.prune_group keep (normal_prune_all also items), again members]
  | any items members =>
      rw [prune, prune, disj_gathers.prune_group keep (normal_prune_all also items), again members]
  | not item inner =>
      rw [prune, prune, ← inner]
      cases found : prune also item with
      | none => rfl
      | some pruned => exact prune_negate keep pruned

/-- A tree from which nothing is dropped keeps its meaning, but for groups without a member. -/
theorem eval_prune_nothing (holds : Term → Bool) {tree : Logic Term}
    (filled : tree.hasEmptyGroup = false) :
    (prune (fun _ => true) tree).map (eval holds) = some (eval holds tree) := by
  have group {items : List (Logic Term)} (occupied : items ≠ [])
      (members : ∀ item ∈ items,
        (prune (fun _ => true) item).map (eval holds) = some (eval holds item)) :
      pruneAll (fun _ => true) items ≠ [] ∧
        (pruneAll (fun _ => true) items).map (eval holds) = items.map (eval holds) := by
    have same : (pruneAll (fun _ => true) items).map (eval holds) = items.map (eval holds) := by
      rw [prune_all, List.map_flatMap, List.map_eq_flatMap]
      refine List.flatMap_congr fun item member => ?_
      rw [← Option.toList_map, members item member, Option.toList_some]
    refine ⟨fun none => occupied ?_, same⟩
    rwa [none, List.map_nil, eq_comm, List.map_eq_nil_iff] at same
  induction tree using induct with
  | term value => rfl
  | all items members =>
      obtain ⟨occupied, parts⟩ := filled_group_iff.mp filled
      obtain ⟨left, same⟩ :=
        group occupied fun item member => members item member (parts item member)
      have whole := congrArg (List.all · id) same
      rw [List.all_map, List.all_map] at whole
      rw [prune, group_eq_some_iff.mpr ⟨left, rfl⟩, Option.map_some, eval_conj, eval, eval_all]
      exact congrArg some whole
  | any items members =>
      obtain ⟨occupied, parts⟩ := filled_group_iff.mp filled
      obtain ⟨left, same⟩ :=
        group occupied fun item member => members item member (parts item member)
      have whole := congrArg (List.any · id) same
      rw [List.any_map, List.any_map] at whole
      rw [prune, group_eq_some_iff.mpr ⟨left, rfl⟩, Option.map_some, eval_disj, eval, eval_any]
      exact congrArg some whole
  | not item inner =>
      obtain ⟨pruned, found, value⟩ := Option.map_eq_some_iff.mp (inner filled)
      rw [prune, found, Option.map_some, Option.map_some, eval_negate, value, eval]

/-- What `flatten` leaves of a tree is what is there. -/
theorem map_flatten (tree : Logic (Option Term)) :
    (flatten tree).map (map some) = prune Option.isSome tree := by
  have group {items : List (Logic (Option Term))}
      (members : ∀ item ∈ items, (flatten item).map (map some) = prune Option.isSome item) :
      (flattenAll items).map (map some) = pruneAll Option.isSome items := by
    rw [flatten_all, prune_all, List.map_flatMap]
    refine List.flatMap_congr fun item member => ?_
    rw [← Option.toList_map, members item member]
  induction tree using induct with
  | term value => cases value <;> rfl
  | all items members =>
      rw [flatten, prune, ← group members]
      cases flattenAll items with
      | nil => rfl
      | cons first rest => exact congrArg some (map_conj some (first :: rest))
  | any items members =>
      rw [flatten, prune, ← group members]
      cases flattenAll items with
      | nil => rfl
      | cons first rest => exact congrArg some (map_disj some (first :: rest))
  | not item inner =>
      rw [flatten, prune, ← inner, Option.map_map, Option.map_map]
      congr 1
      funext tree
      exact map_negate some tree

theorem flatten_eq (unwrap : Option Term → Term) (present : ∀ value, unwrap (some value) = value)
    (tree : Logic (Option Term)) :
    flatten tree = (prune Option.isSome tree).map (map unwrap) := by
  rw [← map_flatten, Option.map_map]
  cases flatten tree with
  | none => rfl
  | some rest =>
      have same : map unwrap (map some rest) = rest := by
        rw [map_map, funext present]
        exact map_id rest
      rw [Option.map_some, Function.comp_apply, same]

/-- Dropping terms leaves the other terms in their order, in a tree in normal form, and nothing only
if there are none. It can be done in steps, it does nothing to the meaning of a tree that keeps all
its terms, and it is what takes absent terms out of a tree. -/
theorem prune_filters (also keep : Term → Bool) (tree : Logic Term)
    (optional : Logic (Option Term)) :
    (prune keep tree = none ↔ ∀ value ∈ tree.terms, keep value = false) ∧
      (∀ rest, prune keep tree = some rest →
        rest.terms = tree.terms.filter keep ∧ rest.Normal) ∧
      (prune also tree).bind (prune keep) = prune (fun value => also value && keep value) tree ∧
      (tree.hasEmptyGroup = false → ∃ rest, prune (fun _ => true) tree = some rest ∧
        ∀ holds, eval holds rest = eval holds tree) ∧
      (flatten optional).map (map some) = prune Option.isSome optional ∧
      ∀ unwrap : Option Term → Term, (∀ value, unwrap (some value) = value) →
        flatten optional = (prune Option.isSome optional).map (map unwrap) := by
  refine ⟨?gone, ?left, prune_prune also keep tree, ?whole, map_flatten optional, ?unwrapped⟩
  case gone =>
    rw [prune_eq_none_iff, List.filter_eq_nil_iff]
    simp
  case left =>
    intro rest found
    exact ⟨terms_of_pruned found, normal_prune found⟩
  case whole =>
    intro filled
    obtain ⟨rest, found, _⟩ := Option.map_eq_some_iff.mp (eval_prune_nothing (fun _ => true) filled)
    refine ⟨rest, found, fun holds => ?_⟩
    have same := eval_prune_nothing holds filled
    rw [found, Option.map_some] at same
    exact Option.some.inj same
  case unwrapped =>
    intro unwrap present
    exact flatten_eq unwrap present optional

/-- The disjunction that loses a member falls together, and the conjunction is the group of what is
left; nothing is lost of the tree in the other clauses. -/
theorem second_term_dropped :
    let tree : Logic Nat := .all [.term 1, .not (.term 2), .any [.term 2, .term 3]]
    let optional : Logic (Option Nat) :=
      .all [.term (some 1), .term none, .not (.any [.term none, .term (some 2)])]
    (prune (· != 2) tree = some (.all [.term 1, .term 3]) ∧
      [1, 3] = tree.terms.filter (· != 2) ∧ Normal (.all [.term 1, .term 3])) ∧
      (tree.hasEmptyGroup = false ∧ ∃ rest, prune (fun _ => true) tree = some rest ∧
        ∀ holds, eval holds rest = eval holds tree) ∧
      flatten optional = (prune Option.isSome optional).map (map (·.getD 0)) := by
  intro tree optional
  have laws := prune_filters (· != 1) (· != 2) tree optional
  have pruned : prune (· != 2) tree = some (.all [.term 1, .term 3]) := by cbv
  obtain ⟨terms, normal⟩ := laws.2.1 _ pruned
  have filled : tree.hasEmptyGroup = false := by decide
  exact ⟨⟨pruned, terms, normal⟩, ⟨filled, laws.2.2.2.1 filled⟩,
    laws.2.2.2.2.2 (·.getD 0) fun _ => rfl⟩

end DetectionRules.Logic
