import DetectionRules.Proofs.Rule
import Std.Data.String.ToNat

/-!
Naming selections keeps the meaning of an expression. Every name is issued
once, so what a name stands for does not change when more names are issued,
and a condition lists the names in the order in which they were issued.
-/

namespace DetectionRules.Expression

theorem mem_add_value {values : List Value} {value other : Value} :
    other ∈ addValue values value ↔ other ∈ values ∨ other = value := by
  rw [addValue]
  by_cases known : value ∈ values
  · rw [if_pos (List.contains_iff_mem.mpr known)]
    constructor
    · exact Or.inl
    · rintro (member | rfl)
      · exact member
      · exact known
  · rw [if_neg (fun found => known (List.contains_iff_mem.mp found))]
    simp

theorem mem_fold_add_value {added values : List Value} {value : Value} :
    value ∈ added.foldl addValue values ↔ value ∈ values ∨ value ∈ added := by
  induction added generalizing values with
  | nil => simp
  | cons first rest induction =>
      rw [List.foldl_cons, induction, mem_add_value, List.mem_cons, or_assoc]

theorem fold_add_value_of_nodup {values : List Value} (distinct : values.Nodup) :
    values.foldl addValue [] = values := by
  have behind : ∀ front rest : List Value, (front ++ rest).Nodup →
      rest.foldl addValue front = front ++ rest := by
    intro front rest distinct
    induction rest generalizing front with
    | nil => rw [List.foldl_nil, List.append_nil]
    | cons value rest induction =>
        have fresh : value ∉ front := fun member =>
          (List.nodup_append.mp distinct).2.2 value member value (by simp) rfl
        rw [List.append_cons] at distinct ⊢
        rw [List.foldl_cons, addValue, if_neg (by simpa using fresh), induction _ distinct]
  exact behind [] values distinct

theorem any_fold_add_value (added values : List Value) (test : Value → Bool) :
    (added.foldl addValue values).any test = (values.any test || added.any test) := by
  rw [Bool.eq_iff_iff, Bool.or_eq_true, List.any_eq_true, List.any_eq_true, List.any_eq_true]
  simp only [mem_fold_add_value, or_and_right, exists_or]

/-- A fold of alternatives keeps field and operator and holds where one of them holds. -/
theorem fold_alternatives {tests : List FieldTest} {first merged : FieldTest}
    (folded : tests.foldlM addAlternative first = some merged) :
    merged.field = first.field ∧ merged.op = first.op ∧
      (first.values ≠ [] → merged.values ≠ []) ∧
      ∀ truth, merged.holdsFor truth = (first.holdsFor truth || tests.any (·.holdsFor truth)) := by
  induction tests generalizing first with
  | nil =>
      cases folded
      simp
  | cons test rest induction =>
      rw [List.foldlM_cons, addAlternative] at folded
      by_cases same : test.field = first.field ∧ test.op = first.op
      · rw [if_pos same] at folded
        obtain ⟨field, op, filled, holds⟩ := induction folded
        refine ⟨field, op, fun some => filled ?_, fun truth => ?_⟩
        · obtain ⟨value, others, found⟩ := List.exists_cons_of_ne_nil some
          exact List.ne_nil_of_mem (mem_fold_add_value.mpr (.inl (found ▸ List.mem_cons_self)))
        · rw [holds, List.any_cons, ← Bool.or_assoc]
          congr 1
          simp only [FieldTest.holdsFor, any_fold_add_value, same.1, same.2]
      · rw [if_neg same] at folded
        cases folded

theorem map_m_term {items : List (Logic FieldTest)} {tests : List FieldTest}
    (all : items.mapM Logic.term? = some tests) : items = tests.map .term := by
  induction items generalizing tests with
  | nil =>
      cases all
      rfl
  | cons item rest induction =>
      cases item with
      | term test =>
          rw [List.mapM_cons] at all
          cases others : rest.mapM Logic.term? with
          | none => simp [Logic.term?, others] at all
          | some found =>
              simp only [Logic.term?, others, Option.bind_eq_bind, Option.bind_some,
                Option.pure_def, Option.some.injEq] at all
              rw [← all, List.map_cons, induction others]
      | all items => simp [List.mapM_cons, Logic.term?] at all
      | any items => simp [List.mapM_cons, Logic.term?] at all
      | not item => simp [List.mapM_cons, Logic.term?] at all

theorem of_merge_alternatives {items : List (Logic FieldTest)} {merged : FieldTest}
    (merges : mergeAlternatives items = some merged) :
    ∃ first rest, items = (first :: rest).map .term ∧ first.op.isComparison = false ∧
      rest.foldlM addAlternative first = some merged := by
  rw [mergeAlternatives] at merges
  cases all : items.mapM Logic.term? with
  | none => simp [all] at merges
  | some tests =>
      cases compared : tests.any (·.op.isComparison) with
      | true =>
          simp only [all, Option.bind_eq_bind, Option.bind_some, compared, if_true] at merges
          cases merges
      | false =>
          cases tests with
          | nil => simp [all] at merges
          | cons first rest =>
              have folded : rest.foldlM addAlternative first = some merged := by
                simpa only [all, Option.bind_eq_bind, Option.bind_some, compared,
                  Bool.false_eq_true, if_false] using merges
              rw [List.any_cons, Bool.or_eq_false_iff] at compared
              exact ⟨first, rest, map_m_term all, compared.1, folded⟩

theorem merge_alternatives {items : List (Logic FieldTest)} {merged : FieldTest}
    (merges : mergeAlternatives items = some merged) :
    (∀ truth, merged.holdsFor truth = items.any (Logic.eval (·.holdsFor truth))) ∧
      ((∀ test ∈ items.flatMap Logic.terms, test.Proper) → merged.Proper) := by
  obtain ⟨first, rest, rfl, noComparison, folded⟩ := of_merge_alternatives merges
  obtain ⟨field, op, filled, holds⟩ := fold_alternatives folded
  constructor
  · intro truth
    rw [holds]
    simp [Logic.eval, List.any_map, Function.comp_def]
  · intro proper
    have firstProper := proper first (by simp [Logic.terms])
    refine ⟨field ▸ firstProper.named, filled firstProper.filled, fun comparison => ?_⟩
    rw [op, noComparison] at comparison
    cases comparison

theorem filter_tests {item : Logic FieldTest} {tests : List FieldTest}
    (found : filterTests? item = some tests) :
    (∀ truth, tests.all (·.holdsFor truth) = item.eval (·.holdsFor truth)) ∧
      (item.hasEmptyGroup = false → tests ≠ []) ∧
      ((∀ test ∈ item.terms, test.Proper) → ∀ test ∈ tests, test.Proper) := by
  cases item with
  | term test =>
      cases found
      simp [Logic.eval, Logic.terms]
  | all items =>
      have same := map_m_term found
      subst same
      refine ⟨fun truth => ?_, fun filled => ?_, fun proper test member => ?_⟩
      · simp [Logic.eval, Logic.eval_all, List.all_map, Function.comp_def]
      · rw [Logic.hasEmptyGroup, Bool.or_eq_false_iff] at filled
        simpa using filled.1
      · exact proper test (by simpa [Logic.terms, Logic.terms_of_all, List.flatMap_map] using member)
  | any items =>
      obtain ⟨merged, merges, rfl⟩ := Option.map_eq_some_iff.mp found
      obtain ⟨holds, sound⟩ := merge_alternatives merges
      refine ⟨fun truth => ?_, fun _ => by simp, fun proper test member => ?_⟩
      · simp [holds, Logic.eval, Logic.eval_any]
      · rw [List.mem_singleton.mp member]
        exact sound (by simpa only [Logic.terms, Logic.terms_of_all] using proper)
  | not item => cases found

namespace Naming

private theorem numbered_prefix (base : String) (count : Nat) :
    base.toList <+: (numbered base count).toList := by
  rw [numbered]
  split
  · exact List.prefix_refl _
  · simp

theorem numbered_ne_empty {base : String} (filled : base ≠ "") (count : Nat) :
    numbered base count ≠ "" := by
  intro empty
  have start := numbered_prefix base count
  rw [empty] at start
  exact filled (String.toList_injective (List.prefix_nil.mp start))

theorem numbered_injective {base : String} {left right : Nat}
    (same : numbered base left = numbered base right) : left = right := by
  rw [numbered, numbered] at same
  have longer (count : Nat) : base ≠ base ++ "_" ++ toString count := by
    intro equal
    have lengths := congrArg String.length equal
    simp only [String.length_append] at lengths
    have underscore : "_".length = 1 := rfl
    omega
  split at same <;> split at same
  · omega
  · exact absurd same (longer right)
  · exact absurd same.symm (longer left)
  · have digits : toString left = toString right := by
      simpa [String.append_right_inj] using same
    exact Nat.repr_injective digits

theorem selection_ne_filter (left right : Nat) :
    numbered "selection" left ≠ numbered "filter" right := by
  intro same
  have first : (numbered "selection" left).toList.head? = some 's' := by
    obtain ⟨rest, found⟩ := numbered_prefix "selection" left
    rw [← found]
    rfl
  have second : (numbered "filter" right).toList.head? = some 'f' := by
    obtain ⟨rest, found⟩ := numbered_prefix "filter" right
    rw [← found]
    rfl
  rw [same, second] at first
  cases first

/-- The names that the counters account for. -/
def Issued (naming : Naming) (name : String) : Prop :=
  (∃ count ≤ naming.selections, name = numbered "selection" count) ∨
    ∃ count ≤ naming.filters, name = numbered "filter" count

structure Sound (naming : Naming) : Prop where
  issued : ∀ selection ∈ naming.named, naming.Issued selection.name
  distinct : (naming.named.map (·.name)).Nodup

theorem sound_start : Sound {} := ⟨by simp, by simp⟩

theorem sound_select {naming : Naming} (sound : naming.Sound) (tests : List FieldTest) :
    (select tests naming).2.Sound := by
  constructor
  · intro selection member
    rcases List.mem_cons.mp member with rfl | member
    · exact .inl ⟨naming.selections + 1, Nat.le_refl _, rfl⟩
    · rcases sound.issued selection member with ⟨count, bound, same⟩ | issued
      · exact .inl ⟨count, Nat.le_succ_of_le bound, same⟩
      · exact .inr issued
  · refine List.nodup_cons.mpr ⟨fun member => ?_, sound.distinct⟩
    obtain ⟨selection, inside, same⟩ := List.mem_map.mp member
    rcases sound.issued selection inside with ⟨count, bound, named⟩ | ⟨count, _, named⟩
    · have equal := numbered_injective (named.symm.trans same)
      omega
    · exact selection_ne_filter _ _ (same.symm.trans named)

theorem sound_filter {naming : Naming} (sound : naming.Sound) (tests : List FieldTest) :
    (filter tests naming).2.Sound := by
  constructor
  · intro selection member
    rcases List.mem_cons.mp member with rfl | member
    · exact .inr ⟨naming.filters + 1, Nat.le_refl _, rfl⟩
    · rcases sound.issued selection member with issued | ⟨count, bound, same⟩
      · exact .inl issued
      · exact .inr ⟨count, Nat.le_succ_of_le bound, same⟩
  · refine List.nodup_cons.mpr ⟨fun member => ?_, sound.distinct⟩
    obtain ⟨selection, inside, same⟩ := List.mem_map.mp member
    rcases sound.issued selection inside with ⟨count, _, named⟩ | ⟨count, bound, named⟩
    · exact selection_ne_filter _ _ (named.symm.trans same)
    · have equal := numbered_injective (named.symm.trans same)
      omega

theorem name_ne_empty {naming : Naming} (sound : naming.Sound) {selection : Selection}
    (member : selection ∈ naming.named) : selection.name ≠ "" := by
  rcases sound.issued selection member with ⟨count, _, named⟩ | ⟨count, _, named⟩
  · exact named ▸ numbered_ne_empty (by decide) count
  · exact named ▸ numbered_ne_empty (by decide) count

end Naming

/-- Whether the selection of a name holds. -/
def holdsNamed (truth : Valuation) (named : List Selection) (name : String) : Bool :=
  named.any fun selection => selection.name == name && selection.holdsFor truth

theorem holds_named_append {added named : List Selection} {name : String} (truth : Valuation)
    (distinct : ((added ++ named).map (·.name)).Nodup) (member : name ∈ named.map (·.name)) :
    holdsNamed truth (added ++ named) name = holdsNamed truth named name := by
  have absent : holdsNamed truth added name = false := by
    rw [holdsNamed, List.any_eq_false]
    intro selection inside found
    rw [List.map_append, List.nodup_append] at distinct
    simp only [Bool.and_eq_true, beq_iff_eq] at found
    exact distinct.2.2 selection.name (List.mem_map.mpr ⟨selection, inside, rfl⟩) name member found.1
  rw [holdsNamed, List.any_append]
  simp only [holdsNamed] at absent ⊢
  rw [absent, Bool.false_or]

theorem holds_named_head {naming : Naming} (sound : naming.Sound) {selection : Selection}
    {named : List Selection} (same : naming.named = selection :: named) (truth : Valuation) :
    holdsNamed truth naming.named selection.name = selection.holdsFor truth := by
  have distinct := sound.distinct
  rw [same, List.map_cons, List.nodup_cons] at distinct
  have absent : (named.any fun other => other.name == selection.name && other.holdsFor truth) = false := by
    rw [List.any_eq_false]
    intro other inside found
    simp only [Bool.and_eq_true, beq_iff_eq] at found
    exact distinct.1 (List.mem_map.mpr ⟨other, inside, found.1⟩)
  rw [holdsNamed, same, List.any_cons, absent]
  simp

/-- What naming the selections of some expressions adds, the latest selection first, and what the
conditions that come out of it mean. -/
structure Outcome (before : Naming) (expressions : List (Logic FieldTest)) (added : List Selection)
    (conditions : List (Logic String)) (after : Naming) : Prop where
  named : after.named = added ++ before.named
  sound : after.Sound
  terms : conditions.flatMap Logic.terms = (added.map (·.name)).reverse
  meaning : ∀ truth, conditions.map (Logic.eval (holdsNamed truth after.named)) =
    expressions.map (Logic.eval (·.holdsFor truth))
  normal : (∀ expression ∈ expressions, expression.hasEmptyGroup = false) →
    ∀ condition ∈ conditions, condition.Normal
  proper : (∀ expression ∈ expressions, expression.hasEmptyGroup = false) →
    (∀ test ∈ expressions.flatMap Logic.terms, test.Proper) →
    ∀ selection ∈ added, selection.Proper

namespace Outcome

theorem nil {naming : Naming} (sound : naming.Sound) : Outcome naming [] [] [] naming := by
  constructor <;> simp [sound]

theorem names_known {before after : Naming} {expressions : List (Logic FieldTest)}
    {added : List Selection} {conditions : List (Logic String)}
    (outcome : Outcome before expressions added conditions after) {condition : Logic String}
    (member : condition ∈ conditions) {name : String} (place : name ∈ condition.terms) :
    name ∈ after.named.map (·.name) := by
  have inside : name ∈ conditions.flatMap Logic.terms :=
    List.mem_flatMap.mpr ⟨condition, member, place⟩
  rw [outcome.terms, List.mem_reverse] at inside
  rw [outcome.named, List.map_append, List.mem_append]
  exact .inl inside

theorem append {before middle after : Naming} {firsts seconds : List (Logic FieldTest)}
    {firstAdded secondAdded : List Selection} {firstConditions secondConditions : List (Logic String)}
    (first : Outcome before firsts firstAdded firstConditions middle)
    (second : Outcome middle seconds secondAdded secondConditions after) :
    Outcome before (firsts ++ seconds) (secondAdded ++ firstAdded)
      (firstConditions ++ secondConditions) after := by
  constructor
  case named =>
    rw [second.named, first.named, List.append_assoc]
  case sound =>
    exact second.sound
  case terms =>
    rw [List.flatMap_append, first.terms, second.terms, List.map_append, List.reverse_append]
  case meaning =>
    intro truth
    have stable : firstConditions.map (Logic.eval (holdsNamed truth after.named)) =
        firstConditions.map (Logic.eval (holdsNamed truth middle.named)) := by
      refine List.map_congr_left fun condition member => ?_
      refine Logic.eval_congr condition fun name place => ?_
      rw [second.named]
      exact holds_named_append truth (second.named ▸ second.sound.distinct)
        (first.names_known member place)
    rw [List.map_append, List.map_append, stable, first.meaning, second.meaning]
  case normal =>
    intro filled condition member
    rcases List.mem_append.mp member with inside | inside
    · exact first.normal (fun item place => filled item (by simp [place])) condition inside
    · exact second.normal (fun item place => filled item (by simp [place])) condition inside
  case proper =>
    intro filled sound selection member
    simp only [List.flatMap_append, List.mem_append] at sound
    rcases List.mem_append.mp member with inside | inside
    · exact second.proper (fun item place => filled item (by simp [place]))
        (fun test place => sound test (.inr place)) selection inside
    · exact first.proper (fun item place => filled item (by simp [place]))
        (fun test place => sound test (.inl place)) selection inside

/-- The outcome of a single selection for tests that stand for an expression. -/
theorem select {before : Naming} (sound : before.Sound) {expression : Logic FieldTest}
    {tests : List FieldTest}
    (meaning : ∀ truth, tests.all (·.holdsFor truth) = expression.eval (·.holdsFor truth))
    (proper : expression.hasEmptyGroup = false → (∀ test ∈ expression.terms, test.Proper) →
      tests ≠ [] ∧ ∀ test ∈ tests, test.Proper) :
    ∃ added, Outcome before [expression] added [(Naming.select tests before).1]
      (Naming.select tests before).2 := by
  refine ⟨[⟨Naming.numbered "selection" (before.selections + 1), tests⟩], ?_⟩
  have after := Naming.sound_select sound tests
  constructor
  case named =>
    rfl
  case sound =>
    exact after
  case terms =>
    rfl
  case meaning =>
    intro truth
    have head := holds_named_head after rfl truth
    rw [List.map_singleton, List.map_singleton, ← meaning]
    exact congrArg (fun holds => [holds]) head
  case normal =>
    intro _ condition member
    rw [List.mem_singleton.mp member]
    exact .term _
  case proper =>
    intro filled sound selection member
    rw [List.mem_singleton.mp member]
    have both := proper (filled expression (by simp)) (by simpa using sound)
    exact ⟨both.1, both.2⟩

theorem filter {before : Naming} (sound : before.Sound) {item : Logic FieldTest}
    {tests : List FieldTest} (found : filterTests? item = some tests) :
    ∃ added, Outcome before [.not item] added [Logic.negate (Naming.filter tests before).1]
      (Naming.filter tests before).2 := by
  obtain ⟨meaning, filled, proper⟩ := filter_tests found
  refine ⟨[⟨Naming.numbered "filter" (before.filters + 1), tests⟩], ?_⟩
  have after := Naming.sound_filter sound tests
  constructor
  case named =>
    rfl
  case sound =>
    exact after
  case terms =>
    rfl
  case meaning =>
    intro truth
    have head := holds_named_head after rfl truth
    rw [List.map_singleton, List.map_singleton, Logic.eval_negate, Logic.eval, ← meaning]
    exact congrArg (fun holds => [!holds]) head
  case normal =>
    intro _ condition member
    rw [List.mem_singleton.mp member]
    exact .not (.term _) rfl
  case proper =>
    intro nonempty sound selection member
    rw [List.mem_singleton.mp member]
    have inner : item.hasEmptyGroup = false := by
      simpa [Logic.hasEmptyGroup] using nonempty (.not item) (by simp)
    exact ⟨filled inner, proper (by simpa [Logic.terms] using sound)⟩

private theorem conditions_ne_nil {before after : Naming} {expressions : List (Logic FieldTest)}
    {added : List Selection} {conditions : List (Logic String)}
    (outcome : Outcome before expressions added conditions after) (filled : expressions ≠ []) :
    conditions ≠ [] := by
  intro empty
  have lengths := congrArg List.length (outcome.meaning fun _ _ _ => true)
  rw [empty] at lengths
  exact filled (by simpa using lengths.symm)

private theorem all_meaning {before after : Naming} {expressions : List (Logic FieldTest)}
    {added : List Selection} {conditions : List (Logic String)}
    (outcome : Outcome before expressions added conditions after) (truth : Valuation) :
    conditions.all (Logic.eval (holdsNamed truth after.named)) =
      expressions.all (Logic.eval (·.holdsFor truth)) := by
  have same := congrArg (List.all · id) (outcome.meaning truth)
  simpa [List.all_map, Function.comp_def] using same

private theorem any_meaning {before after : Naming} {expressions : List (Logic FieldTest)}
    {added : List Selection} {conditions : List (Logic String)}
    (outcome : Outcome before expressions added conditions after) (truth : Valuation) :
    conditions.any (Logic.eval (holdsNamed truth after.named)) =
      expressions.any (Logic.eval (·.holdsFor truth)) := by
  have same := congrArg (List.any · id) (outcome.meaning truth)
  simpa [List.any_map, Function.comp_def] using same

/-- The parts of a conjunction, which may be grouped in another way than they were written. -/
theorem conj {before after : Naming} {items parts : List (Logic FieldTest)}
    {added : List Selection} {conditions : List (Logic String)}
    (outcome : Outcome before parts added conditions after)
    (same : ∀ truth : Valuation, parts.all (Logic.eval (·.holdsFor truth)) =
      items.all (Logic.eval (·.holdsFor truth)))
    (kept : items ≠ [] → parts ≠ [])
    (inside : ∀ test ∈ parts.flatMap Logic.terms, test ∈ items.flatMap Logic.terms)
    (filled : (∀ item ∈ items, item.hasEmptyGroup = false) →
      ∀ part ∈ parts, part.hasEmptyGroup = false) :
    Outcome before [.all items] added [Logic.conj conditions] after := by
  have nonempty (whole : ∀ expression ∈ [Logic.all items], expression.hasEmptyGroup = false) :
      items ≠ [] ∧ ∀ item ∈ items, item.hasEmptyGroup = false :=
    Logic.filled_group_iff.mp (whole _ (List.mem_singleton.mpr rfl))
  constructor
  case named =>
    exact outcome.named
  case sound =>
    exact outcome.sound
  case terms =>
    rw [List.flatMap_singleton, Logic.terms_conj, outcome.terms]
  case meaning =>
    intro truth
    rw [List.map_singleton, List.map_singleton, Logic.eval_conj, all_meaning outcome, same,
      Logic.eval, Logic.eval_all]
  case normal =>
    intro whole condition member
    obtain ⟨some, members⟩ := nonempty whole
    rw [List.mem_singleton.mp member]
    exact Logic.Normal.conj (conditions_ne_nil outcome (kept some)) (outcome.normal (filled members))
  case proper =>
    intro whole sound
    refine outcome.proper (filled (nonempty whole).2) fun test place => sound test ?_
    simpa [Logic.terms, Logic.terms_of_all] using inside test place

theorem disj {before after : Naming} {items : List (Logic FieldTest)}
    {added : List Selection} {conditions : List (Logic String)}
    (outcome : Outcome before items added conditions after) :
    Outcome before [.any items] added [Logic.disj conditions] after := by
  have nonempty (whole : ∀ expression ∈ [Logic.any items], expression.hasEmptyGroup = false) :
      items ≠ [] ∧ ∀ item ∈ items, item.hasEmptyGroup = false :=
    Logic.filled_group_iff.mp (whole _ (List.mem_singleton.mpr rfl))
  constructor
  case named =>
    exact outcome.named
  case sound =>
    exact outcome.sound
  case terms =>
    rw [List.flatMap_singleton, Logic.terms_disj, outcome.terms]
  case meaning =>
    intro truth
    rw [List.map_singleton, List.map_singleton, Logic.eval_disj, any_meaning outcome,
      Logic.eval, Logic.eval_any]
  case normal =>
    intro whole condition member
    obtain ⟨some, members⟩ := nonempty whole
    rw [List.mem_singleton.mp member]
    exact Logic.Normal.disj (conditions_ne_nil outcome some) (outcome.normal members)
  case proper =>
    intro whole sound
    refine outcome.proper (nonempty whole).2 fun test place => sound test ?_
    simpa [Logic.terms, Logic.terms_of_all] using place

theorem negate {before after : Naming} {item : Logic FieldTest} {added : List Selection}
    {condition : Logic String} (outcome : Outcome before [item] added [condition] after) :
    Outcome before [.not item] added [Logic.negate condition] after := by
  have inner (whole : ∀ expression ∈ [Logic.not item], expression.hasEmptyGroup = false) :
      ∀ expression ∈ [item], expression.hasEmptyGroup = false := by
    simpa [Logic.hasEmptyGroup] using whole
  constructor
  case named =>
    exact outcome.named
  case sound =>
    exact outcome.sound
  case terms =>
    simpa using outcome.terms
  case meaning =>
    intro truth
    have same := outcome.meaning truth
    simp only [List.map_singleton, List.cons.injEq, and_true] at same
    rw [List.map_singleton, List.map_singleton, Logic.eval_negate, Logic.eval, same]
  case normal =>
    intro whole other member
    rw [List.mem_singleton.mp member]
    exact (outcome.normal (inner whole) condition (by simp)).negate
  case proper =>
    intro whole sound
    exact outcome.proper (inner whole) (by simpa [Logic.terms] using sound)

end Outcome

private def Names (expression : Logic FieldTest) : Prop :=
  ∀ before : Naming, before.Sound → ∃ added,
    Outcome before [expression] added [(nameSelections expression before).1]
      (nameSelections expression before).2

private theorem name_all {items : List (Logic FieldTest)} (members : ∀ item ∈ items, Names item)
    {before : Naming} (sound : before.Sound) :
    ∃ added, Outcome before items added (nameAll items before).1 (nameAll items before).2 := by
  induction items generalizing before with
  | nil => exact ⟨[], .nil sound⟩
  | cons item rest induction =>
      obtain ⟨firstAdded, first⟩ := members item (by simp) before sound
      obtain ⟨others, second⟩ := induction
        (by intro other member; exact members other (by simp [member])) first.sound
      exact ⟨others ++ firstAdded, first.append second⟩

private theorem name_groups {items : List (Logic FieldTest)}
    (members : ∀ item ∈ items, Names item) {before : Naming} (sound : before.Sound) :
    ∃ added, Outcome before (items.filter fun item => !item.isTerm) added
      (nameGroups items before).1 (nameGroups items before).2 := by
  induction items generalizing before with
  | nil => exact ⟨[], .nil sound⟩
  | cons item rest induction =>
      have later : ∀ other ∈ rest, Names other := by
        intro other member
        exact members other (by simp [member])
      have group (other : item.isTerm = false) : ∃ added,
          Outcome before (item :: rest.filter fun item => !item.isTerm) added
            ((nameSelections item before).1 ::
              (nameGroups rest (nameSelections item before).2).1)
            (nameGroups rest (nameSelections item before).2).2 := by
        obtain ⟨firstAdded, first⟩ := members item (by simp) before sound
        obtain ⟨others, second⟩ := induction later first.sound
        exact ⟨others ++ firstAdded, first.append second⟩
      cases item with
      | term test => exact induction later sound
      | all items => exact group rfl
      | any items => exact group rfl
      | not item => exact group rfl

private theorem terms_of_tests (items : List (Logic FieldTest)) :
    items.filterMap Logic.term? ++ (items.filter fun item => !item.isTerm).flatMap Logic.terms ⊆
      items.flatMap Logic.terms := by
  intro test member
  rcases List.mem_append.mp member with inside | inside
  · obtain ⟨item, place, found⟩ := List.mem_filterMap.mp inside
    refine List.mem_flatMap.mpr ⟨item, place, ?_⟩
    cases item <;> simp_all [Logic.term?, Logic.terms]
  · obtain ⟨item, place, found⟩ := List.mem_flatMap.mp inside
    exact List.mem_flatMap.mpr ⟨item, List.mem_of_mem_filter place, found⟩

private theorem all_split (truth : Valuation) (items : List (Logic FieldTest)) :
    ((items.filterMap Logic.term?).all (·.holdsFor truth) &&
      (items.filter fun item => !item.isTerm).all (Logic.eval (·.holdsFor truth))) =
      items.all (Logic.eval (·.holdsFor truth)) := by
  induction items with
  | nil => rfl
  | cons item rest induction =>
      rw [List.all_cons, ← induction]
      cases item <;>
        simp [Logic.term?, Logic.isTerm, Logic.eval, Bool.and_assoc, Bool.and_left_comm]

private theorem filled_tests {tests : List FieldTest} (some : tests ≠ []) :
    (Logic.all (tests.map .term)).hasEmptyGroup = false := by
  refine Logic.filled_group_iff.mpr ⟨by simpa using some, fun item member => ?_⟩
  obtain ⟨test, _, rfl⟩ := List.mem_map.mp member
  rfl

private theorem name_conjoined_groups {items : List (Logic FieldTest)}
    (members : ∀ item ∈ items, Names item) (none : items.filterMap Logic.term? = [])
    {before : Naming} (sound : before.Sound) :
    ∃ added, Outcome before [.all items] added [Logic.conj (nameGroups items before).1]
      (nameGroups items before).2 := by
  obtain ⟨added, groups⟩ := name_groups members sound
  refine ⟨added, groups.conj (fun truth => ?_) ?_ ?_ ?_⟩
  · have split := all_split truth items
    rwa [none, List.all_nil, Bool.true_and] at split
  · intro some
    obtain ⟨item, rest, rfl⟩ := List.exists_cons_of_ne_nil some
    have group := List.filterMap_eq_nil_iff.mp none item (by simp)
    cases item <;> simp_all [Logic.term?, Logic.isTerm]
  · intro test member
    exact terms_of_tests items (List.mem_append.mpr (.inr member))
  · intro filled part member
    exact filled part (List.mem_of_mem_filter member)

/-- The tests of a conjunction become one selection, in front of its other members. -/
private theorem name_conjoined_tests {items : List (Logic FieldTest)}
    (members : ∀ item ∈ items, Names item) (some : items.filterMap Logic.term? ≠ [])
    {before : Naming} (sound : before.Sound) :
    ∃ added, Outcome before [.all items] added
      [Logic.conj ((Naming.select (items.filterMap Logic.term?) before).1 ::
        (nameGroups items (Naming.select (items.filterMap Logic.term?) before).2).1)]
      (nameGroups items (Naming.select (items.filterMap Logic.term?) before).2).2 := by
  have meaning : ∀ truth : Valuation, (items.filterMap Logic.term?).all (·.holdsFor truth) =
      (Logic.all ((items.filterMap Logic.term?).map .term)).eval (·.holdsFor truth) := by
    simp [Logic.eval, Logic.eval_all, List.all_map, Function.comp_def]
  have terms : (Logic.all ((items.filterMap Logic.term?).map .term)).terms =
      items.filterMap Logic.term? := by
    simp [Logic.terms, Logic.terms_of_all, List.flatMap_map]
  obtain ⟨firstAdded, first⟩ := Outcome.select sound meaning
    (fun _ proper => ⟨some, fun test member => proper test (by rwa [terms])⟩)
  obtain ⟨others, groups⟩ := name_groups members first.sound
  refine ⟨others ++ firstAdded, (first.append groups).conj (fun truth => ?_) (by simp) ?_ ?_⟩
  · rw [← all_split truth items, meaning]
    rfl
  · intro test member
    refine terms_of_tests items ?_
    rwa [List.flatMap_append, List.flatMap_singleton, terms] at member
  · intro filled part member
    rcases List.mem_cons.mp member with rfl | member
    · exact filled_tests some
    · exact filled part (List.mem_of_mem_filter member)

theorem name_selections (expression : Logic FieldTest) : Names expression := by
  induction expression using Logic.induct with
  | term test =>
      intro before sound
      exact Outcome.select sound (by simp [Logic.eval]) (by simp [Logic.terms])
  | all items members =>
      intro before sound
      have step : nameSelections (.all items) before =
          if (items.filterMap Logic.term?).isEmpty then
            (Logic.conj (nameGroups items before).1, (nameGroups items before).2)
          else
            let first := Naming.select (items.filterMap Logic.term?) before
            (Logic.conj (first.1 :: (nameGroups items first.2).1), (nameGroups items first.2).2) := by
        rw [nameSelections]
        split <;> rfl
      rw [step]
      split
      · rename_i none
        exact name_conjoined_groups members (List.isEmpty_iff.mp none) sound
      · rename_i some
        exact name_conjoined_tests members (fun none => some (List.isEmpty_iff.mpr none)) sound
  | any items members =>
      intro before sound
      rw [nameSelections]
      cases merges : mergeAlternatives items with
      | some merged =>
        obtain ⟨holds, proper⟩ := merge_alternatives merges
        refine Outcome.select sound (fun truth => ?_) fun _ sound => ?_
        · simp [holds, Logic.eval, Logic.eval_any]
        · simpa using proper (by simpa only [Logic.terms, Logic.terms_of_all] using sound)
      | none =>
        obtain ⟨added, all⟩ := name_all members sound
        exact ⟨added, all.disj⟩
  | not item inner =>
      intro before sound
      rw [nameSelections]
      cases found : filterTests? item with
      | some tests => exact Outcome.filter sound found
      | none =>
        obtain ⟨added, outcome⟩ := inner before sound
        exact ⟨added, outcome.negate⟩

private theorem find_any_of_nodup {selections : List Selection} (test : Selection → Bool)
    (distinct : (selections.map (·.name)).Nodup) (name : String) :
    (selections.find? (·.name == name)).any test =
      selections.any fun selection => selection.name == name && test selection := by
  induction selections with
  | nil => rfl
  | cons selection rest induction =>
      rw [List.map_cons, List.nodup_cons] at distinct
      rw [List.find?_cons, List.any_cons]
      cases same : selection.name == name with
      | false => simpa using induction distinct.2
      | true =>
          have absent : (rest.any fun other => other.name == name && test other) = false := by
            rw [List.any_eq_false]
            intro other member found
            simp only [Bool.and_eq_true, beq_iff_eq] at found same
            exact distinct.1 (List.mem_map.mpr ⟨other, member, found.1.trans same.symm⟩)
          simp [absent]

/-- The selections of an expression, whose names are distinct and stand in the condition in the
order of the selections. -/
theorem to_selections_outcome (expression : Logic FieldTest) :
    Outcome {} [expression] (toSelections expression).1.reverse [(toSelections expression).2]
      (nameSelections expression {}).2 := by
  obtain ⟨added, outcome⟩ := name_selections expression {} Naming.sound_start
  have same : (toSelections expression).1.reverse = added := by
    have named := outcome.named
    rw [List.append_nil] at named
    rw [← named]
    exact List.reverse_reverse _
  rw [same]
  exact outcome

theorem names_distinct (expression : Logic FieldTest) :
    ((toSelections expression).1.map (·.name)).Nodup := by
  have outcome := to_selections_outcome expression
  have distinct := outcome.sound.distinct
  rw [outcome.named, List.append_nil, List.map_reverse, List.nodup_reverse] at distinct
  exact distinct

theorem terms_of_condition (expression : Logic FieldTest) :
    (toSelections expression).2.terms = (toSelections expression).1.map (·.name) := by
  have terms := (to_selections_outcome expression).terms
  rwa [List.flatMap_singleton, List.map_reverse, List.reverse_reverse] at terms

/-- The condition over the selections means what the expression means. -/
theorem holds_for_of_selections {rule : Rule} {expression : Logic FieldTest}
    (selections : rule.selections = (toSelections expression).1)
    (condition : rule.condition = (toSelections expression).2) (truth : Valuation) :
    rule.holdsFor truth = expression.eval (·.holdsFor truth) := by
  have outcome := to_selections_outcome expression
  have meaning := outcome.meaning truth
  rw [outcome.named, List.append_nil] at meaning
  simp only [List.map_singleton, List.cons.injEq, and_true] at meaning
  rw [Rule.holdsFor, condition, ← meaning]
  refine Logic.eval_congr _ fun name _ => ?_
  rw [Rule.selection?, selections, find_any_of_nodup _ (names_distinct expression), holdsNamed,
    List.any_reverse]

theorem holds_of_selections {rule : Rule} {expression : Logic FieldTest}
    (selections : rule.selections = (toSelections expression).1)
    (condition : rule.condition = (toSelections expression).2) (truth : Truth) :
    rule.holds truth = expression.eval (·.holds truth) :=
  holds_for_of_selections selections condition truth.valuation

theorem well_formed_of_selections {rule : Rule} {expression : Logic FieldTest}
    (selections : rule.selections = (toSelections expression).1)
    (condition : rule.condition = (toSelections expression).2)
    (normal : expression.Normal) (tests : ∀ test ∈ expression.terms, test.Proper)
    (aggregation : ∀ aggregation ∈ rule.aggregation, aggregation.Proper) : rule.WellFormed := by
  have outcome := to_selections_outcome expression
  have filled : ∀ other ∈ [expression], other.hasEmptyGroup = false := by
    simpa using normal.filled
  have conditionNormal : (toSelections expression).2.Normal := outcome.normal filled _ (by simp)
  have terms := terms_of_condition expression
  apply (Rule.well_formed_iff rule).mpr
  constructor
  case filled =>
    intro empty
    rw [selections] at empty
    rw [empty] at terms
    exact conditionNormal.terms_ne_nil terms
  case named =>
    intro selection member
    rw [selections] at member
    refine Naming.name_ne_empty outcome.sound ?_
    rw [outcome.named]
    simp [member]
  case selections =>
    intro selection member
    rw [selections] at member
    exact outcome.proper filled (by simpa using tests) selection (by simpa using member)
  case distinct =>
    rw [selections]
    exact names_distinct expression
  case known =>
    intro name member
    rw [condition, terms] at member
    obtain ⟨selection, inside, named⟩ := List.mem_map.mp member
    rw [Rule.selection?, selections, List.find?_isSome]
    exact ⟨selection, inside, by simpa using named⟩
  case condition =>
    rw [condition]
    exact conditionNormal.filled
  case aggregation =>
    exact aggregation

/-- Naming the selections of an expression keeps its meaning. The names are distinct, and the
condition of a rule with these selections lists each of them once, in their order. -/
theorem to_selections_faithful (rule : Rule) (expression : Logic FieldTest) :
    let named : Rule := { rule with
      selections := (toSelections expression).1
      condition := (toSelections expression).2 }
    (∀ truth : Valuation, named.holdsFor truth = expression.eval (·.holdsFor truth)) ∧
      (named.selections.map (·.name)).Nodup ∧
      named.condition.terms = named.selections.map (·.name) ∧
      named.danglingReferences = [] ∧ named.unusedSelections = [] := by
  intro named
  have terms : named.condition.terms = named.selections.map (·.name) := terms_of_condition expression
  refine ⟨holds_for_of_selections rfl rfl, names_distinct expression, terms, ?_, ?_⟩
  · rw [Rule.danglingReferences, List.filter_eq_nil_iff]
    intro name member
    rw [terms] at member
    obtain ⟨selection, inside, same⟩ := List.mem_map.mp member
    have found : (named.selection? name).isSome := by
      rw [Rule.selection?, List.find?_isSome]
      exact ⟨selection, inside, by simpa using same⟩
    simpa using Option.isSome_iff_ne_none.mp found
  · rw [Rule.unusedSelections, List.filter_eq_nil_iff]
    intro name member
    rw [← terms] at member
    simpa using member

end DetectionRules.Expression
