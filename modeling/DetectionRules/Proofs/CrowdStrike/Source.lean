import DetectionRules.Dialect.CrowdStrike
import DetectionRules.Proofs.Lead
import DetectionRules.Proofs.Number
import DetectionRules.Proofs.Rule

/-!
Where events come from is written as tests of the event's name and platform.
Lifting such tests out of a filter turns them into a source that stands for
the same tests, so a filter means what its source and its rest mean together.
Nothing is asked of the filter here: the members of its outermost conjunction
are only put in another order, the tests of the source first.
-/

namespace DetectionRules.CrowdStrike

open scoped List

/-- The tests that a source stands for, as far as the dialect has names for it. -/
def sourceTests (source : LogSource) : List FieldTest :=
  ((source.category.bind eventOf?).map fun event =>
      FieldTest.single eventField .equals (.str event)).toList ++
    ((source.product.bind platformOf?).map fun platform =>
      FieldTest.single platformField .equals (.str platform)).toList

/-- What a query that is written for a rule asks for: its condition, from its source. -/
def holdsFrom (truth : Truth) (rule : Rule) : Bool :=
  (sourceTests rule.logSource).all (·.holds truth) && rule.holds truth

theorem event_of_category {event category : String} (known : categoryOf? event = some category) :
    eventOf? category = some event := by
  obtain ⟨before, after, same, _⟩ := List.lookup_eq_some_iff.mp known
  have member : (event, category) ∈ events := by rw [same]; simp
  have both : ∀ pair ∈ events, eventOf? pair.2 = some pair.1 := by decide
  exact both _ member

theorem platform_of_product {platform product : String}
    (known : productOf? platform = some product) : platformOf? product = some platform := by
  obtain ⟨before, after, same, _⟩ := List.lookup_eq_some_iff.mp known
  have member : (platform, product) ∈ platforms := by rw [same]; simp
  have both : ∀ pair ∈ platforms, platformOf? pair.2 = some pair.1 := by decide
  exact both _ member

theorem value_of_lookup {table : List (String × String)} {value : Value} {found : String}
    (plain : ∀ pair ∈ table, Value.ofLiteral pair.1 = .str pair.1)
    (known : table.lookup value.text = some found) : value = .str value.text := by
  obtain ⟨before, after, same, _⟩ := List.lookup_eq_some_iff.mp known
  have name := plain (value.text, found) (by rw [same]; simp)
  cases value with
  | str text => rfl
  | int number =>
      rw [Value.of_literal_int] at name
      cases name

theorem source_of_eq_some {test : FieldTest} {source : LogSource}
    (found : sourceOf? test = some source) :
    (∃ event category, eventOf? category = some event ∧ source = { category := some category } ∧
        test = .single eventField .equals (.str event)) ∨
      ∃ platform product, platformOf? product = some platform ∧
        source = { product := some product } ∧
        test = .single platformField .equals (.str platform) := by
  obtain ⟨field, op, values⟩ := test
  rw [sourceOf?] at found
  split at found
  · rename_i value operator single
    obtain rfl : op = .equals := operator
    obtain rfl : values = [value] := single
    split at found
    · rename_i event
      obtain ⟨category, known, rfl⟩ := Option.map_eq_some_iff.mp found
      have name := value_of_lookup (by decide +kernel) known
      exact .inl ⟨value.text, category, event_of_category known, rfl, by rw [← name, ← event]; rfl⟩
    · split at found
      · rename_i _ platform
        obtain ⟨product, known, rfl⟩ := Option.map_eq_some_iff.mp found
        have name := value_of_lookup (by decide +kernel) known
        exact .inr ⟨value.text, product, platform_of_product known, rfl,
          by rw [← name, ← platform]; rfl⟩
      · cases found
  · cases found

theorem perm_added {known found source : LogSource} {test : FieldTest}
    (fixes : sourceOf? test = some found) (added : addSource? known found = some source) :
    test :: sourceTests known ~ sourceTests source := by
  rw [addSource?] at added
  split at added
  · cases added
  · rename_i free
    cases added
    rcases source_of_eq_some fixes with ⟨event, category, listed, rfl, rfl⟩ |
      ⟨platform, product, listed, rfl, rfl⟩
    · have noCategory : known.category = none := by simpa using free
      simp [sourceTests, noCategory, listed]
    · have noProduct : known.product = none := by simpa using free
      rw [sourceTests, sourceTests, noProduct]
      simpa [listed] using (List.perm_append_singleton _ _).symm

/-- Each test is either stood for by the source or left, and none is made up. -/
theorem perm_lift_sources (tests : List FieldTest) (known : LogSource) :
    sourceTests known ++ tests ~
      sourceTests (liftSources known tests).1 ++ (liftSources known tests).2 := by
  induction tests generalizing known with
  | nil => simp [liftSources]
  | cons test rest induction =>
      rw [liftSources]
      split
      · rename_i source found
        obtain ⟨added, fixes, sum⟩ := Option.bind_eq_some_iff.mp found
        calc sourceTests known ++ test :: rest
          _ ~ test :: sourceTests known ++ rest := List.perm_middle
          _ ~ sourceTests source ++ rest := (perm_added fixes sum).append_right rest
          _ ~ _ := induction source
      · calc sourceTests known ++ test :: rest
          _ ~ test :: (sourceTests known ++ rest) := List.perm_middle
          _ ~ test :: (sourceTests (liftSources known rest).1 ++ (liftSources known rest).2) :=
            (induction known).cons test
          _ ~ _ := List.perm_middle.symm

def isSourceTest (test : FieldTest) : Bool := (sourceOf? test).isSome

theorem lift_source_cases (expression : Logic FieldTest) :
    liftSource expression = ({}, expression) ∨
      (Expression.unpicked isSourceTest expression ≠ [] ∧
        liftSource expression =
          ((liftSources {} (Expression.picked isSourceTest expression)).1,
            Expression.led (liftSources {} (Expression.picked isSourceTest expression)).2
              (Logic.conj (Expression.unpicked isSourceTest expression)))) := by
  have lifted : Expression.liftTests (fun test => (sourceOf? test).isSome) expression = _ :=
    Expression.lift_tests_eq isSourceTest expression
  rw [liftSource, lifted, Logic.group?]
  by_cases alone : Expression.unpicked isSourceTest expression = []
  · rw [alone]
    exact .inl rfl
  · rw [if_neg (by simpa using alone)]
    exact .inr ⟨alone, rfl⟩

theorem perm_picked_source (expression : Logic FieldTest) :
    Expression.picked isSourceTest expression ~
      sourceTests (liftSources {} (Expression.picked isSourceTest expression)).1 ++
        (liftSources {} (Expression.picked isSourceTest expression)).2 :=
  perm_lift_sources (Expression.picked isSourceTest expression) {}

/-- A source and what is left of an expression mean together what the expression means. -/
theorem eval_lift_source (holds : FieldTest → Bool) (expression : Logic FieldTest) :
    ((sourceTests (liftSource expression).1).all holds &&
        (liftSource expression).2.eval holds) = expression.eval holds := by
  rcases lift_source_cases expression with nothing | ⟨_, lifted⟩
  · rw [nothing]
    rfl
  · have members : _ = expression.conjuncts.all (Logic.eval holds) :=
      (Expression.perm_picked isSourceTest expression).all_eq
    have tests : _ = List.all _ holds := (perm_picked_source expression).all_eq
    rw [lifted, ← Logic.eval_conjuncts holds expression, ← members, List.all_append, List.all_map,
      Expression.eval_led, Logic.eval_conj, ← Bool.and_assoc, ← List.all_append]
    exact congrArg (· && _) tests.symm

/-- Every test of an expression is in the source or in the rest, as often as it was there. -/
theorem perm_terms_lift_source (expression : Logic FieldTest) :
    expression.terms ~ sourceTests (liftSource expression).1 ++ (liftSource expression).2.terms := by
  rcases lift_source_cases expression with nothing | ⟨_, lifted⟩
  · rw [nothing]
    exact .refl _
  · have members := (Expression.perm_picked isSourceTest expression).flatMap_right Logic.terms
    rw [List.flatMap_append, Expression.terms_of_single, Logic.terms_conjuncts] at members
    rw [lifted, Expression.terms_led, Logic.terms_conj, ← List.append_assoc]
    exact members.symm.trans ((perm_picked_source expression).append_right _)

theorem terms_of_lift_source {expression : Logic FieldTest} {test : FieldTest}
    (member : test ∈ (liftSource expression).2.terms) : test ∈ expression.terms :=
  (perm_terms_lift_source expression).symm.subset (List.mem_append_right _ member)

theorem normal_lift_source {expression : Logic FieldTest} (normal : expression.Normal) :
    (liftSource expression).2.Normal := by
  rcases lift_source_cases expression with nothing | ⟨others, lifted⟩
  · rw [nothing]
    exact normal
  · rw [lifted]
    apply Expression.normal_led
    exact Logic.Normal.conj others fun item inside => (normal.conjunct (List.mem_filter.mp inside).1).1

/-- Each part of a source is listed in its table. -/
structure Tabulated (source : LogSource) : Prop where
  category : ∀ category ∈ source.category, (eventOf? category).isSome = true
  product : ∀ product ∈ source.product, (platformOf? product).isSome = true

theorem tabulated_added {known found source : LogSource} {test : FieldTest}
    (tabulated : Tabulated known) (fixes : sourceOf? test = some found)
    (added : addSource? known found = some source) : Tabulated source := by
  rw [addSource?] at added
  split at added
  · cases added
  · cases added
    rcases source_of_eq_some fixes with ⟨event, category, listed, rfl, rfl⟩ |
      ⟨platform, product, listed, rfl, rfl⟩
    · refine ⟨fun other member => ?_, by simpa using tabulated.product⟩
      rcases Option.or_eq_some_iff.mp member with old | ⟨_, new⟩
      · exact tabulated.category other old
      · cases new
        simp [listed]
    · refine ⟨by simpa using tabulated.category, fun other member => ?_⟩
      rcases Option.or_eq_some_iff.mp member with old | ⟨_, new⟩
      · exact tabulated.product other old
      · cases new
        simp [listed]

theorem tabulated_lift_sources (tests : List FieldTest) {known : LogSource}
    (tabulated : Tabulated known) : Tabulated (liftSources known tests).1 := by
  induction tests generalizing known with
  | nil => exact tabulated
  | cons test rest induction =>
      rw [liftSources]
      split
      · rename_i source found
        obtain ⟨added, fixes, sum⟩ := Option.bind_eq_some_iff.mp found
        exact induction (tabulated_added tabulated fixes sum)
      · exact induction tabulated

theorem tabulated_lift_source (expression : Logic FieldTest) :
    Tabulated (liftSource expression).1 := by
  have empty : Tabulated {} := ⟨by simp, by simp⟩
  rcases lift_source_cases expression with nothing | ⟨_, lifted⟩
  · rw [nothing]
    exact empty
  · rw [lifted]
    exact tabulated_lift_sources _ empty

theorem all_source_tests {source : LogSource} (tabulated : Tabulated source)
    (holds : FieldTest → Bool) : (sourceTests source).all holds = true ↔
      (∀ category ∈ source.category, ∃ event, eventOf? category = some event ∧
        holds (.single eventField .equals (.str event)) = true) ∧
      ∀ product ∈ source.product, ∃ platform, platformOf? product = some platform ∧
        holds (.single platformField .equals (.str platform)) = true := by
  rw [sourceTests, List.all_append, Bool.and_eq_true]
  refine and_congr ?_ ?_
  · cases place : source.category with
    | none => simp
    | some category =>
        obtain ⟨event, known⟩ := Option.isSome_iff_exists.mp (tabulated.category category place)
        simp [known]
  · cases place : source.product with
    | none => simp
    | some product =>
        obtain ⟨platform, known⟩ := Option.isSome_iff_exists.mp (tabulated.product product place)
        simp [known]

/-- The source says already what a test of the field would say. -/
def Fixed (source : LogSource) (field : String) : Prop :=
  field = eventField ∧ source.category.isSome = true ∨
    field = platformField ∧ source.product.isSome = true

theorem fixed_of_refused {known found : LogSource} {test : FieldTest}
    (fixes : sourceOf? test = some found) (refused : addSource? known found = none) :
    Fixed known test.field := by
  rw [addSource?] at refused
  split at refused
  · rename_i taken
    rcases source_of_eq_some fixes with ⟨event, category, _, rfl, rfl⟩ |
      ⟨platform, product, _, rfl, rfl⟩
    · exact .inl ⟨rfl, by simpa using taken⟩
    · exact .inr ⟨rfl, by simpa using taken⟩
  · cases refused

theorem fixed_of_added {known found source : LogSource} {test : FieldTest}
    (fixes : sourceOf? test = some found) (added : addSource? known found = some source) :
    Fixed source test.field ∧ ∀ field, Fixed known field → Fixed source field := by
  rw [addSource?] at added
  split at added
  · cases added
  · cases added
    refine ⟨?_, fun field fixed => fixed.imp (.imp_right ?_) (.imp_right ?_)⟩
    · rcases source_of_eq_some fixes with ⟨event, category, _, rfl, rfl⟩ |
        ⟨platform, product, _, rfl, rfl⟩
      · exact .inl ⟨rfl, by simp⟩
      · exact .inr ⟨rfl, by simp⟩
    · intro taken
      simp [taken]
    · intro taken
      simp [taken]

theorem not_lifted_of_fixed {known : LogSource} {test : FieldTest}
    (fixed : Fixed known test.field) : (sourceOf? test).bind (addSource? known) = none := by
  have apart : eventField ≠ platformField := by decide
  refine Option.bind_eq_none_iff.mpr fun found fixes => ?_
  rw [addSource?]
  rcases source_of_eq_some fixes with ⟨event, category, _, rfl, rfl⟩ |
    ⟨platform, product, _, rfl, rfl⟩
  · rcases fixed with ⟨_, taken⟩ | ⟨field, _⟩
    · simp [taken]
    · exact absurd field apart
  · rcases fixed with ⟨field, _⟩ | ⟨_, taken⟩
    · exact absurd field.symm apart
    · simp [taken]

theorem left_of_fixed {known : LogSource} {tests : List FieldTest} {test : FieldTest}
    (fixed : Fixed known test.field) (member : test ∈ tests) : test ∈ (liftSources known tests).2 := by
  induction tests generalizing known with
  | nil => cases member
  | cons first rest induction =>
      rw [liftSources]
      split
      · rename_i source found
        obtain ⟨added, fixes, sum⟩ := Option.bind_eq_some_iff.mp found
        rcases List.mem_cons.mp member with rfl | inside
        · rw [not_lifted_of_fixed fixed] at found
          cases found
        · exact induction ((fixed_of_added fixes sum).2 _ fixed) inside
      · rcases List.mem_cons.mp member with rfl | inside
        · exact List.mem_cons_self
        · exact List.mem_cons_of_mem _ (induction fixed inside)

theorem left_of_earlier {known : LogSource} {before after : List FieldTest}
    {earlier test : FieldTest} (inside : earlier ∈ before) (fixes : isSourceTest earlier = true)
    (same : earlier.field = test.field) :
    test ∈ (liftSources known (before ++ test :: after)).2 := by
  induction before generalizing known with
  | nil => cases inside
  | cons first rest induction =>
      have later : test ∈ rest ++ test :: after := by simp
      rw [List.cons_append, liftSources]
      rcases List.mem_cons.mp inside with rfl | inside
      · obtain ⟨found, fixes⟩ := Option.isSome_iff_exists.mp fixes
        rw [fixes, Option.bind_some]
        split
        · rename_i source sum
          exact left_of_fixed (same ▸ (fixed_of_added fixes sum).1) later
        · rename_i refused
          exact List.mem_cons_of_mem _ (left_of_fixed (same ▸ fixed_of_refused fixes refused) later)
      · split
        · exact induction inside
        · exact List.mem_cons_of_mem _ (induction inside)

theorem repeated_left {expression : Logic FieldTest} {before after : List (Logic FieldTest)}
    {earlier test : FieldTest} (order : expression.conjuncts = before ++ .term test :: after)
    (inside : .term earlier ∈ before) (fixes : isSourceTest earlier = true)
    (also : isSourceTest test = true) (same : earlier.field = test.field) :
    .term test ∈ (liftSource expression).2.conjuncts := by
  rcases lift_source_cases expression with nothing | ⟨_, lifted⟩
  · rw [nothing, order]
    simp
  · have itself (test : FieldTest) : (Logic.term test).term? = some test := rfl
    have chosen : Expression.picked isSourceTest expression =
        (before.filterMap fun item => item.term?.filter isSourceTest) ++
          test :: after.filterMap fun item => item.term?.filter isSourceTest := by
      rw [Expression.picked, order, List.filterMap_append]
      simp [itself, Option.filter, also]
    have first : earlier ∈ before.filterMap fun item => item.term?.filter isSourceTest :=
      List.mem_filterMap.mpr ⟨.term earlier, inside, by simp [itself, Option.filter, fixes]⟩
    rw [lifted, chosen]
    apply Logic.term_mem_conjuncts_conj
    exact List.mem_append_left _ (List.mem_map_of_mem (left_of_earlier first fixes same))

theorem filled_lift_source {expression : Logic FieldTest}
    (filled : expression.hasEmptyGroup = false) :
    (liftSource expression).2.hasEmptyGroup = false := by
  rcases lift_source_cases expression with nothing | ⟨others, lifted⟩
  · rw [nothing]
    exact filled
  · rw [lifted]
    apply Expression.filled_led
    exact Logic.filled_conj others fun part inside =>
      (Logic.conjuncts_of_filled filled).2 part (List.mem_filter.mp inside).1

theorem other_member_left (expression : Logic FieldTest) :
    liftSource expression = ({}, expression) ∨ ∃ item ∈ expression.conjuncts,
      (∀ test, item = .term test → isSourceTest test = false) ∧
        item.terms ⊆ (liftSource expression).2.terms := by
  rcases lift_source_cases expression with nothing | ⟨others, lifted⟩
  · exact .inl nothing
  · obtain ⟨item, member⟩ := List.exists_mem_of_ne_nil _ others
    obtain ⟨inside, other⟩ := List.mem_filter.mp member
    refine .inr ⟨item, inside, ?_, fun test place => ?_⟩
    · rintro test rfl
      simpa [Logic.term?] using other
    · rw [lifted, Expression.terms_led, Logic.terms_conj]
      exact List.mem_append_right _ (List.mem_flatMap.mpr ⟨item, member, place⟩)

/-- A source and a rest that lose nothing of the expression they were taken from. -/
structure Lossless (expression : Logic FieldTest) (source : LogSource)
    (rest : Logic FieldTest) : Prop where
  /-- Whatever tests hold, the expression says what the rest says and, for each part of the
  source, the equality with the name in its table. -/
  meaning : ∀ holds : FieldTest → Bool, expression.eval holds = true ↔ rest.eval holds = true ∧
    (∀ category ∈ source.category, ∃ event, eventOf? category = some event ∧
      holds (.single eventField .equals (.str event)) = true) ∧
    ∀ product ∈ source.product, ∃ platform, platformOf? product = some platform ∧
      holds (.single platformField .equals (.str platform)) = true
  /-- Every test is in one of both places, as often as it was there. -/
  tests : expression.terms ~ sourceTests source ++ rest.terms
  /-- A test of the source stays if an earlier one is on the same field, whatever it asks for. -/
  repeated : ∀ before test after, expression.conjuncts = before ++ .term test :: after →
    isSourceTest test = true →
    (∃ earlier, .term earlier ∈ before ∧ isSourceTest earlier = true ∧
      earlier.field = test.field) → .term test ∈ rest.conjuncts
  /-- No group is emptied, so the rest of an expression that says something says something. -/
  filled : expression.hasEmptyGroup = false → rest.hasEmptyGroup = false ∧ rest.terms ≠ []
  /-- Without another member to stay, nothing is lifted. -/
  others : (source = {} ∧ rest = expression) ∨ ∃ item ∈ expression.conjuncts,
    (∀ test, item = .term test → isSourceTest test = false) ∧ item.terms ⊆ rest.terms

theorem lossless_lift_source (expression : Logic FieldTest) :
    Lossless expression (liftSource expression).1 (liftSource expression).2 where
  meaning holds := by
    rw [← eval_lift_source holds expression, Bool.and_eq_true,
      all_source_tests (tabulated_lift_source expression), and_comm]
  tests := perm_terms_lift_source expression
  repeated := by
    rintro before test after order also ⟨earlier, inside, fixes, same⟩
    exact repeated_left order inside fixes also same
  filled := by
    intro filled
    have rest := filled_lift_source filled
    exact ⟨rest, Logic.terms_ne_nil_of_filled rest⟩
  others := (other_member_left expression).imp_left fun nothing => by simp [nothing]

example : (liftSource (.all [.term (.single eventField .equals (.str "DnsRequest")),
    .term (.single "UserName" .equals (.str "admin")),
    .term (.single eventField .equals (.str "UserLogon"))])).2.terms =
    [.single eventField .equals (.str "UserLogon"), .single "UserName" .equals (.str "admin")] := by
  decide +kernel

end DetectionRules.CrowdStrike
