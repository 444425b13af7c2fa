import DetectionRules.Proofs.Engine.Items
import DetectionRules.Service.Answer

/-!
Batches over HTTP. The items of known dialects go to the engine, and the others
are put back between their results. A rejected item comes after all items before
it, of which each has its result by then, so its place is never past the end.
-/

namespace DetectionRules.Service

variable {Notes : Type} {now : Nat} {target : Format}

def format? (item : NamedItem) : Option Format := Format.ofName? item.text.format

def knownItems (items : List NamedItem) : List BatchItem :=
  items.filterMap fun item => (format? item).map fun format => ⟨item.id, item.text.content, format⟩

/-- How many items before a place go to the engine. -/
def knownBefore (items : List NamedItem) (place : Nat) : Nat :=
  (items.take place).countP fun item => (format? item).isSome

def rejections (now : Nat) (target : Format) (items : List NamedItem) : List PlacedResult :=
  (sortItems now target items.zipIdx).2

/-- What is said of a dialect that is not known. -/
def rejection (now : Nat) (target : Format) (item : NamedItem) : BatchResult :=
  reject now target item (.rule (.unknownFormat item.text.format))

theorem sort_items_known {item : NamedItem} {format : Format} (known : format? item = some format)
    (place : Nat) (rest : List (NamedItem × Nat)) :
    sortItems now target ((item, place) :: rest) =
      (⟨item.id, item.text.content, format⟩ :: (sortItems now target rest).1,
        (sortItems now target rest).2) := by
  unfold format? at known
  simp only [sortItems, formatNamed, known]

theorem sort_items_unknown {item : NamedItem} (unknown : format? item = none) (place : Nat)
    (rest : List (NamedItem × Nat)) :
    sortItems now target ((item, place) :: rest) =
      ((sortItems now target rest).1,
        ⟨place, rejection now target item⟩ :: (sortItems now target rest).2) := by
  unfold format? at unknown
  simp only [sortItems, formatNamed, unknown]
  rfl

theorem items_sorted (items : List NamedItem) (first : Nat) :
    (sortItems now target (items.zipIdx first)).1 = knownItems items := by
  induction items generalizing first with
  | nil => rfl
  | cons item rest induction =>
      rw [List.zipIdx_cons, knownItems, List.filterMap_cons]
      cases known : format? item with
      | some format =>
          rw [sort_items_known known, induction]
          rfl
      | none =>
          rw [sort_items_unknown known, induction]
          rfl

/-- Results in the order of their items: those that were given for items of known dialects, and the
rejections of the others between them. -/
inductive Woven (now : Nat) (target : Format) :
    List NamedItem → List BatchResult → List BatchResult → Prop
  | nil : Woven now target [] [] []
  | known {item rest result given results format} (known : format? item = some format)
      (own : Engine.IsItemResult target ⟨item.id, item.text.content, format⟩ result)
      (others : Woven now target rest given results) :
      Woven now target (item :: rest) (result :: given) (result :: results)
  | unknown {item rest given results} (unknown : format? item = none)
      (others : Woven now target rest given results) :
      Woven now target (item :: rest) given (rejection now target item :: results)

namespace Woven

variable {items : List NamedItem} {given results : List BatchResult}

theorem length_eq (woven : Woven now target items given results) :
    results.length = items.length := by
  induction woven with
  | nil => rfl
  | known _ _ _ induction => rw [List.length_cons, List.length_cons, induction]
  | unknown _ _ induction => rw [List.length_cons, List.length_cons, induction]

/-- Every result is the one that its item was given, or the rejection of its item. -/
theorem result_at (woven : Woven now target items given results) {place : Nat} {item : NamedItem}
    (present : items[place]? = some item) :
    match format? item with
    | none => results[place]? = some (rejection now target item)
    | some format => ∃ result, results[place]? = some result ∧
        given[knownBefore items place]? = some result ∧
        Engine.IsItemResult target ⟨item.id, item.text.content, format⟩ result := by
  induction woven generalizing place with
  | nil => cases present
  | @known first rest result given results format known own _ induction =>
      cases place with
      | zero =>
          obtain rfl := Option.some.inj present
          simp only [known]
          exact ⟨result, rfl, rfl, own⟩
      | succ place =>
          have later := induction present
          have count : knownBefore (first :: rest) (place + 1) = knownBefore rest place + 1 := by
            simp [knownBefore, known]
          rw [count]
          exact later
  | @unknown first rest given results unknown _ induction =>
      cases place with
      | zero =>
          obtain rfl := Option.some.inj present
          simp only [unknown]
          rfl
      | succ place =>
          have later := induction present
          have count : knownBefore (first :: rest) (place + 1) = knownBefore rest place := by
            simp [knownBefore, unknown]
          rw [count]
          exact later

end Woven

/-- Puts results back one by one, none of them past the end of the results at that time. -/
inductive Puts : List BatchResult → List PlacedResult → List BatchResult → Prop
  | nil {results} : Puts results [] results
  | cons {results rejected later last} (inside : rejected.place ≤ results.length)
      (others : Puts (insert results rejected) later last) : Puts results (rejected :: later) last

namespace Puts

variable {results last : List BatchResult} {placed : List PlacedResult}

theorem insert_all_eq (puts : Puts results placed last) : insertAll results placed = last := by
  induction puts with
  | nil => rfl
  | cons _ _ induction => exact induction

theorem inside_of_split (puts : Puts results placed last) {before after : List PlacedResult}
    {rejected : PlacedResult} (split : placed = before ++ rejected :: after) :
    rejected.place ≤ (insertAll results before).length := by
  induction before generalizing results placed with
  | nil =>
      subst split
      cases puts with
      | cons inside _ => exact inside
  | cons first before induction =>
      subst split
      cases puts with
      | cons _ others => exact induction others rfl

end Puts

theorem insert_at_end (done given : List BatchResult) (result : BatchResult) :
    insert (done ++ given) ⟨done.length, result⟩ = done ++ [result] ++ given := by
  rw [insert]
  induction done with
  | nil => rfl
  | cons first rest induction =>
      rw [List.cons_append, List.length_cons, List.insertIdx_succ_cons, induction]
      rfl

/-- The items from a place on, where all before it have their results: what is put back leaves those
alone and falls into the right places. -/
theorem puts_woven (now : Nat) {items : List NamedItem} {given : List BatchResult}
    (done : List BatchResult) (own : List.Forall₂ (Engine.IsItemResult target) (knownItems items) given) :
    ∃ results, Woven now target items given results ∧
      Puts (done ++ given) (sortItems now target (items.zipIdx done.length)).2 (done ++ results) := by
  induction items generalizing done given with
  | nil =>
      cases own
      exact ⟨[], .nil, .nil⟩
  | cons item rest induction =>
      have next (result : BatchResult) : (done ++ [result]).length = done.length + 1 := by simp
      have onto (result : BatchResult) (results : List BatchResult) :
          done ++ [result] ++ results = done ++ result :: results := by simp
      rw [List.zipIdx_cons]
      cases known : format? item with
      | some format =>
          rw [knownItems, List.filterMap_cons, known] at own
          rw [sort_items_known known]
          cases own with
          | @cons _ result _ given own others =>
              obtain ⟨results, woven, puts⟩ := induction (done ++ [result]) others
              rw [next, onto, onto] at puts
              exact ⟨_, .known known own woven, puts⟩
      | none =>
          rw [knownItems, List.filterMap_cons, known] at own
          rw [sort_items_unknown known]
          obtain ⟨results, woven, puts⟩ := induction (done ++ [rejection now target item]) own
          rw [next, onto _ results, ← insert_at_end] at puts
          exact ⟨_, .unknown known woven, .cons (by simp) puts⟩

/-- The results of the engine for some items; without any item it is not asked. -/
inductive Gives (engine : Engine Notes) (request : BatchRequest) (moment : Moment Notes) :
    List BatchResult → Moment Notes → Prop
  | nothing (none : request.items = []) : Gives engine request moment [] moment
  | results {summary after} (done : engine.translateBatch request moment = .ok (summary, after)) :
      Gives engine request moment summary.results after

theorem Gives.own {engine : Engine Notes} {request : BatchRequest} {moment after : Moment Notes}
    {given : List BatchResult} (gives : Gives engine request moment given after) :
    List.Forall₂ (Engine.IsItemResult request.target) request.items given := by
  cases gives with
  | nothing none =>
      rw [none]
      exact .nil
  | results done => exact (Engine.of_translate_batch done).2

def BatchBody.request (body : BatchBody) (target : Format) : BatchRequest where
  items := knownItems body.detections
  target := target
  continueOnError := body.continueOnError
  maxConcurrent := body.maxConcurrent

/-- What a batch is answered with, from the results that the engine gives. -/
structure IsBatchAnswer (engine : Engine Notes) (now : Nat) (target : Format)
    (items : List NamedItem) (given : List BatchResult) (summary : BatchSummary) : Prop where
  length : summary.results.length = items.length
  /-- Every result is for the item in its place. -/
  own : ∀ (place : Nat) item result, items[place]? = some item →
    summary.results[place]? = some result →
      result.id = item.id ∧ result.job.content = item.text.content
  unknown : ∀ (place : Nat) item result, items[place]? = some item →
    summary.results[place]? = some result → Format.ofName? item.text.format = none →
      result.job.status = .failed ∧ result.job.errorCode? = some "UNSUPPORTED_FORMAT"
  known : ∀ (place : Nat) item, items[place]? = some item →
    (Format.ofName? item.text.format).isSome = true →
      summary.results[place]? = given[knownBefore items place]?
  counted : summary = .ofResults engine.rounded summary.results
  merged : summary.results = insertAll given (rejections now target items)
  /-- Nothing is put back past the end of the results at that time. -/
  inside : ∀ before rejected after, rejections now target items = before ++ rejected :: after →
    rejected.place ≤ (insertAll given before).length

theorem is_batch_answer {engine : Engine Notes} {items : List NamedItem}
    {given : List BatchResult} {summary : BatchSummary}
    (own : List.Forall₂ (Engine.IsItemResult target) (knownItems items) given)
    (counted : summary = .ofResults engine.rounded summary.results)
    (merged : summary.results = insertAll given (rejections now target items)) :
    IsBatchAnswer engine now target items given summary := by
  obtain ⟨results, woven, puts⟩ := puts_woven now [] own
  obtain rfl : summary.results = results := merged.trans puts.insert_all_eq
  refine ⟨woven.length_eq, ?own, ?unknown, ?known, counted, merged, ?inside⟩
  case own =>
    intro place item result present found
    have result_at := woven.result_at present
    cases known : format? item with
    | none =>
        simp only [known] at result_at
        obtain rfl := Option.some.inj (found.symm.trans result_at)
        exact ⟨rfl, rfl⟩
    | some format =>
        simp only [known] at result_at
        obtain ⟨other, there, _, isResult⟩ := result_at
        obtain rfl := Option.some.inj (found.symm.trans there)
        exact ⟨isResult.1, isResult.2.content⟩
  case unknown =>
    intro place item result present found unknown
    have result_at := woven.result_at present
    simp only [format?, unknown] at result_at
    obtain rfl := Option.some.inj (found.symm.trans result_at)
    exact ⟨rfl, rfl⟩
  case known =>
    intro place item present known
    obtain ⟨format, known⟩ := Option.isSome_iff_exists.mp known
    have result_at := woven.result_at present
    simp only [format?, known] at result_at
    obtain ⟨result, found, there, _⟩ := result_at
    rw [found, there]
  case inside =>
    intro before rejected after split
    exact puts.inside_of_split split

theorem of_batch_served {engine : Engine Notes} {body : BatchBody} {moment after : Moment Notes}
    {summary : BatchSummary}
    (served : translateBatch engine moment body = .ok (summary, after)) :
    body.detections.length ≤ engine.config.batch.maxBatchSize.toNat ∧
      ∃ target given, formatNamed body.target = .ok target ∧
        Gives engine (body.request target) moment given after ∧
        IsBatchAnswer engine moment.now target body.detections given summary := by
  unfold translateBatch at served
  obtain ⟨target, named, served⟩ := Success.of_bind served
  by_cases large : engine.config.batch.maxBatchSize.toNat < body.detections.length
  · simp only [if_pos large] at served
    cases served
  refine ⟨Nat.not_lt.mp large, target, ?_⟩
  simp only [if_neg large, items_sorted] at served
  split at served
  · -- With nothing rejected, the answer is the summary of the engine itself.
    rename_i empty
    have none : rejections moment.now target body.detections = [] := List.isEmpty_iff.mp empty
    obtain ⟨counted, own⟩ := Engine.of_translate_batch served
    refine ⟨summary.results, named, .results served, is_batch_answer own counted ?_⟩
    rw [none]
    rfl
  · split at served
    · rename_i empty
      have none : knownItems body.detections = [] := List.isEmpty_iff.mp empty
      cases served
      refine ⟨[], named, .nothing none, is_batch_answer ?_ rfl rfl⟩
      rw [none]
      exact .nil
    · obtain ⟨⟨given, later⟩, done, served⟩ := Success.of_bind served
      cases served
      have own := (Engine.of_translate_batch done).2
      exact ⟨given.results, named, .results done, is_batch_answer own rfl rfl⟩

/-- No error is answered as if it were a success. -/
theorem status_code_ne_ok (code : String) : statusCode code ≠ 200 := by
  unfold statusCode
  split <;> decide

section Responses

variable {Body Result : Type} {request : Request} {moment after : Moment Notes}
  {response : Response}

theorem of_with_body {shape : Json.Shape} {read : Json → Option Body}
    {answer : Body → Response × Moment Notes}
    (answered : withBody request moment shape read answer = (response, after))
    (ok : response.status = 200) :
    ∃ json body, shape.fitFirst request.body = .ok json ∧ read json = some body ∧
      answer body = (response, after) := by
  unfold withBody at answered
  split at answered
  · cases answered
    cases ok
  · cases fitted : shape.fitFirst request.body with
    | error misfit =>
        simp only [fitted] at answered
        cases answered
        split at ok <;> cases ok
    | ok json =>
        simp only [fitted] at answered
        cases readable : read json with
        | none =>
            simp only [readable] at answered
            cases answered
            cases ok
        | some body =>
            simp only [readable] at answered
            exact ⟨json, body, rfl, readable, answered⟩

theorem of_respond {encode : Result → Json} {outcome : Except JobError (Result × Moment Notes)}
    (answered : respond encode moment outcome = (response, after)) (ok : response.status = 200) :
    ∃ result, outcome = .ok (result, after) ∧ response.body = some (encode result) := by
  cases outcome with
  | ok found =>
      cases answered
      exact ⟨found.1, rfl, rfl⟩
  | error error =>
      cases answered
      exact absurd ok (status_code_ne_ok _)

end Responses

/-- A batch that is answered at all is answered in the order of its items: each result is for the item
in its place, be it the engine's or the rejection of an unknown dialect. -/
theorem batch_answered_in_order (engine : Engine Notes) (request : Request)
    (moment after : Moment Notes) (response : Response) (posted : request.method = "POST")
    (reached : Endpoint.ofPath? request.path = some .translateBatch)
    (answered : answer engine request moment = (response, after)) (ok : response.status = 200) :
    ∃ json body target given summary,
      BatchBody.shape.fitFirst request.body = .ok json ∧ BatchBody.ofJson? json = some body ∧
      formatNamed body.target = .ok target ∧
      body.detections.length ≤ engine.config.batch.maxBatchSize.toNat ∧
      Gives engine (body.request target) moment given after ∧
      IsBatchAnswer engine moment.now target body.detections given summary ∧
      response.body = some summary.toJson := by
  have accepted : Endpoint.translateBatch.accepts "POST" = true := by decide
  have whole : ("POST" == "HEAD") = false := by decide
  simp only [answer, reached, posted, accepted, whole, if_true] at answered
  obtain ⟨json, body, fits, reads, responded⟩ := of_with_body answered ok
  obtain ⟨summary, served, written⟩ := of_respond responded ok
  obtain ⟨fewEnough, target, given, named, gives, isAnswer⟩ := of_batch_served served
  exact ⟨json, body, target, given, summary, fits, reads, named, fewEnough, gives, isAnswer, written⟩

def foreignRequest : Request where
  method := "POST"
  path := "/translate/batch"
  isJson := true
  body := "\x7b\"detections\":[" ++
    "\x7b\"id\":\"first\",\"content\":\"a=1\",\"format\":\"crowdstrike\"\x7d," ++
    "\x7b\"id\":\"second\",\"content\":\"b:1\",\"format\":\"elastic\"\x7d," ++
    "\x7b\"id\":\"third\",\"content\":\"\",\"format\":\"crowdstrike\"\x7d]," ++
    "\"targetFormat\":\"kql\"\x7d"

def foreignAnswer : Response × Moment Unit :=
  answer Engine.plain foreignRequest ⟨0, Engine.plain.initialState ()⟩

theorem foreign_item_in_place :
    foreignAnswer.1.status = 200 ∧
    ∃ json body target given summary,
      BatchBody.shape.fitFirst foreignRequest.body = .ok json ∧
      BatchBody.ofJson? json = some body ∧ formatNamed body.target = .ok target ∧
      body.detections.length ≤ Engine.plain.config.batch.maxBatchSize.toNat ∧
      Gives Engine.plain (body.request target) ⟨0, Engine.plain.initialState ()⟩ given
        foreignAnswer.2 ∧
      IsBatchAnswer Engine.plain 0 target body.detections given summary ∧
      foreignAnswer.1.body = some summary.toJson := by
  have ok : foreignAnswer.1.status = 200 := by decide +kernel
  have reached : Endpoint.ofPath? foreignRequest.path = some .translateBatch := by decide
  exact ⟨ok, batch_answered_in_order Engine.plain foreignRequest ⟨0, Engine.plain.initialState ()⟩
    foreignAnswer.2 foreignAnswer.1 rfl reached rfl ok⟩

end DetectionRules.Service
