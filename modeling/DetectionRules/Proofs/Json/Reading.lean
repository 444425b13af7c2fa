import DetectionRules.Json.Draft
import DetectionRules.Proofs.Number

/-!
Documents are read back from the text in which each part stands on a line of its
own. Reading goes along with the text: what a value leaves over is where its
neighbour begins, and only a comma or a new line may follow it, which no number
goes on with. Where in the text a value was found makes no difference.
-/

namespace DetectionRules.Json

open Draft (Source)

mutual

/-- The draft is that of a text without a break, and the document is what it holds. -/
def Depicts : Json → Draft → Prop
  | .array items, draft => ∃ start drafts finish,
      draft = .array start drafts (.ok finish) ∧ DepictsItems items drafts
  | .object members, draft => ∃ start drafts finish,
      draft = .object start drafts (.ok finish) ∧ DepictsMembers members drafts
  | json, draft => ∃ extent, draft = .scalar json extent

def DepictsItems : List Json → List Draft → Prop
  | [], drafts => drafts = []
  | item :: rest, drafts => ∃ first others,
      drafts = first :: others ∧ Depicts item first ∧ DepictsItems rest others

def DepictsMembers : List (String × Json) → List (Key × Draft × Nat) → Prop
  | [], drafts => drafts = []
  | (name, value) :: rest, drafts => ∃ resume first after others,
      drafts = (⟨name, resume⟩, first, after) :: others ∧ Depicts value first ∧
        DepictsMembers rest others

end

/-- The document has at most so many levels of arrays and objects, and its numbers are whole and
have 64 bits. -/
inductive Readable : Nat → Json → Prop where
  | null {levels} : Readable levels .null
  | bool {levels} (value : Bool) : Readable levels (.bool value)
  | int {levels} (number : Int64) : Readable levels (.int number.toInt)
  | str {levels} (text : String) : Readable levels (.str text)
  | array {levels items} (each : ∀ item ∈ items, Readable levels item) :
      Readable (levels + 1) (.array items)
  | object {levels members} (each : ∀ member ∈ members, Readable levels member.2) :
      Readable (levels + 1) (.object members)

theorem Readable.mono {levels more : Nat} {json : Json} (readable : Readable levels json)
    (enough : levels ≤ more) : Readable more json := by
  induction readable generalizing more with
  | null => exact .null
  | bool value => exact .bool value
  | int number => exact .int number
  | str text => exact .str text
  | array each induction =>
      obtain ⟨more, rfl⟩ := Nat.exists_eq_add_of_lt enough
      exact .array fun item member => induction item member (by omega)
  | object each induction =>
      obtain ⟨more, rfl⟩ := Nat.exists_eq_add_of_lt enough
      exact .object fun member place => induction member place (by omega)

theorem Readable.of_members {levels : Nat} {members : List (Option (String × Json))}
    (each : ∀ entry ∈ members, ∀ member ∈ entry, Readable levels member.2) :
    Readable (levels + 1) (ofMembers members) := by
  refine .object fun member place => ?_
  obtain ⟨entry, inside, found⟩ := List.mem_filterMap.mp place
  exact each entry inside member found

theorem items_whole {items : List Json} {drafts : List Draft}
    (each : ∀ item ∈ items, ∀ draft, Depicts item draft → draft.break? = none ∧ draft.toJson = item)
    (depicts : DepictsItems items drafts) :
    Draft.itemsBreak? drafts = none ∧ Draft.itemsToJson drafts = items := by
  induction items generalizing drafts with
  | nil =>
      obtain rfl : drafts = [] := depicts
      exact ⟨rfl, rfl⟩
  | cons item rest induction =>
      obtain ⟨first, others, rfl, here, later⟩ := depicts
      obtain ⟨unbroken, same⟩ := each item List.mem_cons_self first here
      obtain ⟨others_unbroken, others_same⟩ :=
        induction (fun item member => each item (List.mem_cons_of_mem _ member)) later
      exact ⟨by rw [Draft.itemsBreak?, unbroken, others_unbroken]; rfl,
        by rw [Draft.itemsToJson, same, others_same]⟩

theorem members_whole {members : List (String × Json)} {drafts : List (Key × Draft × Nat)}
    (each : ∀ member ∈ members, ∀ draft, Depicts member.2 draft →
      draft.break? = none ∧ draft.toJson = member.2)
    (depicts : DepictsMembers members drafts) :
    Draft.membersBreak? drafts = none ∧ Draft.membersToJson drafts = members := by
  induction members generalizing drafts with
  | nil =>
      obtain rfl : drafts = [] := depicts
      exact ⟨rfl, rfl⟩
  | cons member rest induction =>
      obtain ⟨resume, first, after, others, rfl, here, later⟩ := depicts
      obtain ⟨unbroken, same⟩ := each member List.mem_cons_self first here
      obtain ⟨others_unbroken, others_same⟩ :=
        induction (fun member place => each member (List.mem_cons_of_mem _ place)) later
      exact ⟨by rw [Draft.membersBreak?, unbroken, others_unbroken]; rfl,
        by rw [Draft.membersToJson, same, others_same]⟩

theorem whole_of_depicts {levels : Nat} {json : Json} (readable : Readable levels json)
    {draft : Draft} (depicts : Depicts json draft) : draft.break? = none ∧ draft.toJson = json := by
  induction readable generalizing draft with
  | null | bool value | int number | str text =>
      obtain ⟨extent, rfl⟩ := depicts
      exact ⟨rfl, rfl⟩
  | array each induction =>
      obtain ⟨start, drafts, finish, rfl, items⟩ := depicts
      obtain ⟨unbroken, same⟩ := items_whole (fun item member draft => induction item member) items
      exact ⟨by rw [Draft.break?, unbroken]; rfl, by rw [Draft.toJson, same]⟩
  | object each induction =>
      obtain ⟨start, drafts, finish, rfl, members⟩ := depicts
      obtain ⟨unbroken, same⟩ :=
        members_whole (fun member place draft => induction member place) members
      exact ⟨by rw [Draft.break?, unbroken]; rfl, by rw [Draft.toJson, same]⟩

def IsGap (gap : List Char) : Prop := ∀ c ∈ gap, Source.isBlank c = true

theorem skip_gap {gap : List Char} (isGap : IsGap gap) {c : Char} (ink : Source.isBlank c = false)
    (rest : List Char) (offset : Nat) :
    (⟨gap ++ c :: rest, offset⟩ : Source).skipBlank = ⟨c :: rest, offset + gap.length⟩ := by
  have taken : (gap ++ c :: rest).takeWhile Source.isBlank = gap :=
    Text.take_while_front isGap (by simpa using ink)
  simp only [Source.skipBlank, Source.pass, taken, List.drop_left]

theorem skip_nothing {c : Char} (ink : Source.isBlank c = false) (rest : List Char) (offset : Nat) :
    (⟨c :: rest, offset⟩ : Source).skipBlank = ⟨c :: rest, offset⟩ :=
  @skip_gap [] (List.forall_mem_nil _) c ink rest offset

def lineStart (depth : Nat) : List Char := '\n' :: List.replicate (2 * depth) ' '

theorem is_gap_line_start (depth : Nat) : IsGap (lineStart depth) := by
  intro c member
  rcases List.mem_cons.mp member with rfl | member
  · rfl
  · rw [List.eq_of_mem_replicate member]
    rfl

theorem hex_digits_spec : ∀ number < 0x20, (hexDigits 4 number).length = 4 ∧
    Text.byteCount (hexDigits 4 number) = 4 ∧ Text.hexValue? (hexDigits 4 number) = some number := by
  decide

theorem code_escape_hex {number : Nat} (small : number < 0x20) (offset : Nat) (rest : List Char) :
    Draft.codeEscape offset (hexDigits 4 number ++ rest) = .ok (Char.ofNat number, 4) := by
  obtain ⟨length, bytes, value⟩ := hex_digits_spec number small
  have taken : (hexDigits 4 number ++ rest).take 4 = hexDigits 4 number := by
    exact List.take_left' length
  have digits : Draft.fourHexDigits offset (hexDigits 4 number ++ rest) = .ok number := by
    rw [Draft.fourHexDigits, taken, bytes, value]
    rfl
  rw [Draft.codeEscape, digits]
  simp only [bind, Except.bind]
  rw [if_neg (by omega), if_pos (by omega)]
  rfl

theorem escape_char_spec (c : Char) :
    (escapeChar c = [c] ∧ ¬c.toNat < 0x20 ∧ c ≠ '"' ∧ c ≠ '\\') ∨
      ∃ code, escapeChar c = '\\' :: code ∧
        ∀ offset rest, Draft.escape offset (code ++ rest) = .ok (c, code.length) := by
  unfold escapeChar
  split
  · exact .inr ⟨['"'], rfl, fun _ _ => rfl⟩
  · exact .inr ⟨['\\'], rfl, fun _ _ => rfl⟩
  · exact .inr ⟨['n'], rfl, fun _ _ => rfl⟩
  · exact .inr ⟨['r'], rfl, fun _ _ => rfl⟩
  · exact .inr ⟨['t'], rfl, fun _ _ => rfl⟩
  · exact .inr ⟨['b'], rfl, fun _ _ => rfl⟩
  · exact .inr ⟨['f'], rfl, fun _ _ => rfl⟩
  · rename_i quote backslash _ _ _ _ _
    by_cases small : c.toNat < 0x20
    · rw [if_pos small]
      refine .inr ⟨'u' :: hexDigits 4 c.toNat, rfl, fun offset rest => ?_⟩
      have code := code_escape_hex small (offset + 1) rest
      rw [Char.ofNat_toNat] at code
      rw [List.cons_append, Draft.escape, code, List.length_cons, (hex_digits_spec _ small).1]
      rfl
    · rw [if_neg small]
      exact .inl ⟨rfl, small, quote, backslash⟩

/-- What is written between quotes is read back. -/
theorem string_body_escaped (text : List Char) (offset : Nat) (rest : List Char) :
    ∃ finish, Draft.stringBody offset (text.flatMap escapeChar ++ '"' :: rest) =
      .ok (text, ⟨rest, finish⟩) := by
  induction text generalizing offset with
  | nil => exact ⟨offset + 1, by rw [List.flatMap_nil, List.nil_append, Draft.stringBody]⟩
  | cons c text induction =>
      rw [List.flatMap_cons, List.append_assoc]
      rcases escape_char_spec c with ⟨plain, visible, quote, backslash⟩ | ⟨code, escaped, read⟩
      · obtain ⟨finish, others⟩ := induction (offset + c.utf8Size)
        refine ⟨finish, ?_⟩
        rw [plain, List.singleton_append, Draft.stringBody, if_neg visible, others]
        · rfl
        · exact fun same => quote same
        · exact fun same => backslash same
      · obtain ⟨finish, others⟩ := induction (offset + 1 + code.length)
        refine ⟨finish, ?_⟩
        rw [escaped, List.cons_append, Draft.stringBody, read]
        simp only [bind, Except.bind, List.drop_left, others]
        rfl

/-- What may follow a value: another part, a new line or nothing. -/
def Stops (rest : List Char) : Prop := ∀ c ∈ rest.head?, c = ',' ∨ c = '\n'

theorem add_digits {digits : List Char} {start : Nat}
    (small :
      digits.foldl (fun number c => number * 10 + (c.toNat - '0'.toNat)) start < UInt64.size) :
    digits.foldl Number.Gathered.addWhole ⟨start, 0, false⟩ =
      ⟨digits.foldl (fun number c => number * 10 + (c.toNat - '0'.toNat)) start, 0, false⟩ := by
  have grows (digits : List Char) (start : Nat) :
      start ≤ digits.foldl (fun number c => number * 10 + (c.toNat - '0'.toNat)) start := by
    induction digits generalizing start with
    | nil => exact Nat.le_refl _
    | cons c rest induction =>
        rw [List.foldl_cons]
        exact Nat.le_trans (by omega) (induction _)
  induction digits generalizing start with
  | nil => rfl
  | cons c rest induction =>
      rw [List.foldl_cons] at small ⊢
      have next := Nat.lt_of_le_of_lt (grows rest _) small
      rw [Number.Gathered.addWhole]
      simp only [Bool.false_or, decide_eq_true_eq]
      rw [if_neg (Nat.not_le.mpr next)]
      exact induction small

theorem gather_digits {number : Nat} (small : number < UInt64.size) :
    (Nat.toDigits 10 number).foldl Number.Gathered.addWhole ⟨0, 0, false⟩ =
      ⟨number, 0, false⟩ := by
  have value := Text.nat_of_digits_to_digits number
  rw [Text.natOfDigits] at value
  rw [add_digits (by rw [value]; exact small), value]

theorem not_digit_of_stops {rest : List Char} (stops : Stops rest) :
    ∀ c ∈ rest.head?, c.isDigit = false := by
  intro c front
  rcases stops c front with rfl | rfl <;> rfl

/-- A zero in front stands alone. -/
theorem zero_alone {number : Nat} {others : List Char}
    (digits : Nat.toDigits 10 number = '0' :: others) : others = [] := by
  have leading := Text.leading_zero_to_digits number
  rw [digits] at leading
  cases others with
  | nil => rfl
  | cons second more => simp at leading

theorem read_digits {number : Nat} (small : number < UInt64.size) {rest : List Char}
    (stops : Stops rest) (offset signs : Nat) (negative : Bool) :
    Number.unsigned offset signs negative (Nat.toDigits 10 number ++ rest) =
      Number.unsigned.integer offset (signs + (Nat.toDigits 10 number).length) negative
        ⟨number, 0, false⟩ := by
  have all : ∀ c ∈ Nat.toDigits 10 number, c.isDigit = true := fun c member =>
    Nat.isDigit_of_mem_toDigits (by omega) (by omega) member
  have notDigit := not_digit_of_stops stops
  have taken := Text.take_while_front all notDigit
  have gathered := gather_digits small
  obtain ⟨first, others, digits⟩ := List.exists_cons_of_ne_nil
    (Nat.toDigits_ne_nil (n := number) (b := 10))
  rw [digits] at all taken gathered ⊢
  -- What follows a zero in front is no digit.
  have noZero : (first = '0' && (others ++ rest).head?.any Char.isDigit) = false := by
    by_cases zero : first = '0'
    · subst zero
      rw [zero_alone digits, List.nil_append]
      cases rest with
      | nil => simp
      | cons c others => simp [notDigit c rfl]
    · simp [zero]
  have chosen : (if first = '0' then [first]
      else (first :: (others ++ rest)).takeWhile Char.isDigit) = first :: others := by
    split
    · rename_i zero
      subst zero
      rw [zero_alone digits]
    · exact taken
  rw [List.cons_append, Number.unsigned, if_neg (by simp [all first List.mem_cons_self]),
    if_neg (by rw [noZero]; simp)]
  simp only [chosen]
  rw [gathered, ← List.cons_append, List.drop_left]
  cases rest with
  | nil => rfl
  | cons c rest =>
      rcases stops c rfl with rfl | rfl <;> rfl

/-- A whole number is read back from its digits, with a sign or without. -/
theorem read_number (number : Int64) {rest : List Char} (stops : Stops rest) (offset : Nat) :
    Number.read offset ((toString number.toInt).toList ++ rest) =
      .ok (.int number.toInt, (toString number.toInt).toList.length) := by
  have least : Int64.minValue.toInt = -9223372036854775808 := by decide
  have greatest : Int64.maxValue.toInt = 9223372036854775807 := by decide
  have size : UInt64.size = 18446744073709551616 := rfl
  have above := Int64.minValue_le_toInt number
  have below := Int64.toInt_le number
  rcases Text.to_list_int number.toInt with ⟨amount, same, text⟩ | ⟨amount, same, text⟩
  · have digits := @read_digits amount (by omega) _ stops offset 0 false
    obtain ⟨first, others, front⟩ := List.exists_cons_of_ne_nil
      (Nat.toDigits_ne_nil (n := amount) (b := 10))
    have unsigned : Number.read offset (Nat.toDigits 10 amount ++ rest) =
        Number.unsigned offset 0 false (Nat.toDigits 10 amount ++ rest) := by
      rw [front, List.cons_append, Number.read]
      intro others same
      obtain rfl := (List.cons.inj same).1
      exact absurd (Text.digits_ne_sign front) (by decide)
    rw [text, unsigned, digits, Number.unsigned.integer]
    simp [same]
  · have positive : 0 < amount := by
      rcases Nat.eq_zero_or_pos amount with rfl | positive
      · rw [same] at text
        exact absurd text (by decide)
      · exact positive
    have digits := @read_digits amount (by omega) _ stops offset 1 true
    have fits : ¬(amount = 0 ∨ Int64.minValue.toInt.natAbs < amount) := by omega
    rw [text, List.cons_append, Number.read, digits, Number.unsigned.integer,
      if_neg (by simpa using fits)]
    simp [same, Nat.add_comm]

/-- A text that begins with what no blank and no end of a list is. -/
def Begins (characters : List Char) : Prop :=
  ∃ first others, characters = first :: others ∧ Source.isBlank first = false ∧ first ≠ ']'

/-- The document is read from the text, whatever may follow it. -/
def Shows (levels : Nat) (characters : List Char) (json : Json) : Prop :=
  Begins characters ∧ ∀ rest, Stops rest → ∀ offset, ∃ draft finish,
    Draft.value levels ⟨characters ++ rest, offset⟩ = (draft, .ok ⟨rest, finish⟩) ∧
      Depicts json draft

theorem shows_scalar {levels : Nat} {first : Char} {others : List Char} {json : Json}
    (ink : Source.isBlank first = false) (other : first ≠ ']' ∧ first ≠ '[' ∧ first ≠ '\x7b')
    (reads : ∀ rest, Stops rest → ∀ offset, ∃ finish,
      Draft.scalarValue ⟨first :: others ++ rest, offset⟩ = .ok (json, ⟨rest, finish⟩))
    (depicts : ∀ extent, Depicts json (.scalar json extent)) :
    Shows levels (first :: others) json := by
  refine ⟨⟨first, others, rfl, ink, other.1⟩, fun rest stops offset => ?_⟩
  obtain ⟨finish, read⟩ := reads rest stops offset
  refine ⟨_, finish, ?_, depicts ⟨offset, finish⟩⟩
  rw [List.cons_append] at read ⊢
  rw [Draft.value.eq_def]
  simp only [skip_nothing ink, List.head?_cons, read]
  split
  · rename_i same
    exact absurd (Option.some.inj same) other.2.1
  · rename_i same
    exact absurd (Option.some.inj same) other.2.2
  · rfl

theorem shows_quote (levels : Nat) (text : String) :
    Shows levels (quote text).toList (.str text) := by
  have quoted : (quote text).toList = '"' :: (text.toList.flatMap escapeChar ++ ['"']) := by
    simp [quote]
  rw [quoted]
  refine shows_scalar rfl (by decide) (fun rest _ offset => ?_) fun extent => ⟨extent, rfl⟩
  obtain ⟨finish, read⟩ := string_body_escaped text.toList (offset + 1) rest
  refine ⟨finish, ?_⟩
  simp only [List.cons_append, List.append_assoc, List.nil_append, Draft.scalarValue, read]
  simp [Except.map]

theorem shows_number (levels : Nat) (number : Int64) :
    Shows levels (toString number.toInt).toList (.int number.toInt) := by
  obtain ⟨first, others, front, digit⟩ : ∃ first others,
      (toString number.toInt).toList = first :: others ∧
        (first.isDigit || first == '-') = true := by
    rcases Text.to_list_int number.toInt with ⟨amount, _, text⟩ | ⟨amount, _, text⟩
    · obtain ⟨first, others, digits⟩ := List.exists_cons_of_ne_nil
        (Nat.toDigits_ne_nil (n := amount) (b := 10))
      exact ⟨first, others, text.trans digits, by simp [Text.digits_ne_sign digits]⟩
    · exact ⟨'-', _, text, rfl⟩
  have other (c : Char) (no : (c.isDigit || c == '-') = false) : first ≠ c := by
    rintro rfl
    rw [digit] at no
    cases no
  have ink : Source.isBlank first = false := by
    simp [Source.isBlank, other ' ' rfl, other '\n' rfl, other '\t' rfl, other '\r' rfl]
  rw [front]
  refine shows_scalar ink ⟨other _ rfl, other _ rfl, other _ rfl⟩ (fun rest stops offset => ?_)
    fun extent => ⟨extent, rfl⟩
  have read := read_number number stops offset
  rw [front, List.cons_append] at read
  refine ⟨offset + (first :: others).length, ?_⟩
  rw [List.cons_append, Draft.scalarValue]
  split
  · rename_i same
    cases same
  · rename_i same
    exact absurd (List.cons.inj same).1 (other _ rfl)
  · rename_i same
    exact absurd (List.cons.inj same).1 (other _ rfl)
  · rename_i same
    exact absurd (List.cons.inj same).1 (other _ rfl)
  · rename_i same
    exact absurd (List.cons.inj same).1 (other _ rfl)
  · rename_i same
    obtain rfl := (List.cons.inj same).1
    simp only [if_pos digit, read, Except.map, Source.pass]
    rw [← List.cons_append, List.drop_left]

/-- Further parts, each behind a comma, and the end. -/
def followed (gap ending : List Char) : List (List Char) → List Char
  | [] => ending
  | part :: rest => ',' :: (gap ++ (part ++ followed gap ending rest))

theorem stops_followed (gap : List Char) (depth : Nat) (closing : Char) (parts : List (List Char))
    (rest : List Char) :
    Stops (followed gap (lineStart depth ++ [closing]) parts ++ rest) := by
  cases parts with
  | nil => exact fun c front => .inr (Option.some.inj front).symm
  | cons part parts => exact fun c front => .inl (Option.some.inj front).symm

theorem items_step {readItem : Source → Draft × Except Nat Source} {isFirst : Bool}
    {source itemSource next : Source} {item : Draft}
    (found : Draft.nextItem? isFirst source.skipBlank = .ok (some itemSource))
    (read : readItem itemSource = (item, .ok next))
    (shorter : next.rest.length < source.rest.length) :
    Draft.items readItem isFirst source =
      (item :: (Draft.items readItem false next).1, (Draft.items readItem false next).2) := by
  rw [Draft.items]
  simp only [found, read, if_pos shorter]

variable {levels : Nat} {gap ending : List Char}

theorem item_shown {characters : List Char} {item : Json} (isGap : IsGap gap)
    (shows : Shows levels characters item) {rest : List Char} (stops : Stops rest) (isFirst : Bool)
    (offset : Nat) :
    ∃ draft finish, Depicts item draft ∧
      Draft.items (Draft.value levels) isFirst
        ⟨(if isFirst then [] else [',']) ++ (gap ++ (characters ++ rest)), offset⟩ =
      (draft :: (Draft.items (Draft.value levels) false ⟨rest, finish⟩).1,
        (Draft.items (Draft.value levels) false ⟨rest, finish⟩).2) := by
  obtain ⟨⟨first, others, rfl, ink, noEnd⟩, reads⟩ := shows
  cases isFirst with
  | true =>
      obtain ⟨draft, finish, read, depicts⟩ := reads rest stops (offset + gap.length)
      refine ⟨draft, finish, depicts, items_step ?_ read (by simp; omega)⟩
      simp only [if_true, List.nil_append, List.cons_append, skip_gap isGap ink, Draft.nextItem?]
  | false =>
      obtain ⟨draft, finish, read, depicts⟩ := reads rest stops (offset + 1 + gap.length)
      refine ⟨draft, finish, depicts, items_step ?_ read (by simp; omega)⟩
      have comma : Source.isBlank ',' = false := rfl
      simp only [Bool.false_eq_true, if_false, List.cons_append, List.nil_append,
        skip_nothing comma, Draft.nextItem?, Source.pass, List.drop_one, List.tail_cons,
        skip_gap isGap ink]
      simp [noEnd]

/-- Items behind one another up to the end of the array. -/
theorem items_followed {texts : Json → List Char} (isGap : IsGap gap) (depth : Nat)
    {items : List Json}
    (each : ∀ item ∈ items, Shows levels (texts item) item) (rest : List Char) (offset : Nat) :
    ∃ drafts finish, Draft.items (Draft.value levels) false
        ⟨followed gap (lineStart depth ++ [']']) (items.map texts) ++ rest, offset⟩ =
      (drafts, .ok ⟨rest, finish⟩) ∧ DepictsItems items drafts := by
  induction items generalizing offset with
  | nil =>
      have bracket : Source.isBlank ']' = false := rfl
      have split : followed gap (lineStart depth ++ [']']) [] ++ rest =
          lineStart depth ++ ']' :: rest := by simp [followed]
      rw [List.map_nil, split, Draft.items]
      simp only [skip_gap (is_gap_line_start depth) bracket, Draft.nextItem?, Source.pass,
        List.drop_one, List.tail_cons]
      exact ⟨[], _, rfl, rfl⟩
  | cons item items induction =>
      obtain ⟨draft, finish, depicts, read⟩ := item_shown isGap (each item List.mem_cons_self)
        (stops_followed gap depth ']' (items.map texts) rest) false offset
      obtain ⟨drafts, last, others_read, others_depict⟩ :=
        induction (fun item member => each item (List.mem_cons_of_mem _ member)) finish
      rw [others_read] at read
      refine ⟨draft :: drafts, last, ?_, draft, drafts, rfl, depicts, others_depict⟩
      simpa [followed] using read

theorem members_step {readValue : Source → Draft × Except Nat Source} {isFirst : Bool}
    {source keySource afterName next : Source} {name : List Char} {value : Draft}
    (found : Draft.nextKey? isFirst source.skipBlank = .ok (some keySource))
    (key : Draft.stringBody keySource.offset keySource.rest = .ok (name, afterName))
    (colon : afterName.skipBlank.rest.head? = some ':')
    (read : readValue (afterName.skipBlank.pass 1).skipBlank = (value, .ok next))
    (shorter : next.rest.length < source.rest.length) :
    Draft.members readValue isFirst source =
      ((⟨String.ofList name, afterName.resume⟩, value, next.resume) ::
        (Draft.members readValue false next).1, (Draft.members readValue false next).2) := by
  rw [Draft.members]
  simp only [found, key, colon, bne_self_eq_false, Bool.false_eq_true, if_false, read, if_pos shorter]

def memberText (name : String) (characters : List Char) : List Char :=
  (quote name).toList ++ (':' :: ' ' :: characters)

theorem member_shown {characters : List Char} {name : String} {value : Json} (isGap : IsGap gap)
    (shows : Shows levels characters value) {rest : List Char} (stops : Stops rest) (isFirst : Bool)
    (offset : Nat) :
    ∃ draft resume after finish, Depicts value draft ∧
      Draft.members (Draft.value levels) isFirst
        ⟨(if isFirst then [] else [',']) ++ (gap ++ (memberText name characters ++ rest)), offset⟩ =
      ((⟨name, resume⟩, draft, after) :: (Draft.members (Draft.value levels) false ⟨rest, finish⟩).1,
        (Draft.members (Draft.value levels) false ⟨rest, finish⟩).2) := by
  have quoted : memberText name characters ++ rest =
      '"' :: (name.toList.flatMap escapeChar ++ '"' :: ':' :: ' ' :: (characters ++ rest)) := by
    simp [memberText, quote]
  have mark : Source.isBlank '"' = false := rfl
  have comma : Source.isBlank ',' = false := rfl
  have point : Source.isBlank ':' = false := rfl
  obtain ⟨⟨first, others, rfl, ink, noEnd⟩, reads⟩ := shows
  rw [quoted]
  -- Up to the key there is a comma or nothing, and from there on both cases are the same.
  obtain ⟨start, found⟩ : ∃ start, Draft.nextKey? isFirst (⟨(if isFirst then [] else [',']) ++ (gap ++
      '"' :: (name.toList.flatMap escapeChar ++ '"' :: ':' :: ' ' :: (first :: others ++ rest))),
      offset⟩ : Source).skipBlank = .ok (some ⟨name.toList.flatMap escapeChar ++
        '"' :: ':' :: ' ' :: (first :: others ++ rest), start⟩) := by
    cases isFirst with
    | true =>
        simp only [if_true, List.nil_append, skip_gap isGap mark, Draft.nextKey?, Source.pass,
          List.drop_one, List.tail_cons]
        exact ⟨_, rfl⟩
    | false =>
        simp only [Bool.false_eq_true, if_false, List.cons_append, List.nil_append,
          skip_nothing comma, Draft.nextKey?, Source.pass, List.drop_one, List.tail_cons,
          skip_gap isGap mark]
        exact ⟨_, rfl⟩
  obtain ⟨behind, key⟩ :=
    string_body_escaped name.toList start (':' :: ' ' :: (first :: others ++ rest))
  have gapOne : IsGap [' '] := by simp [IsGap, Source.isBlank]
  have valueSource : ((⟨':' :: ' ' :: (first :: others ++ rest), behind⟩ : Source).skipBlank.pass
      1).skipBlank = ⟨first :: others ++ rest, behind + 1 + 1⟩ := by
    rw [skip_nothing point]
    exact skip_gap gapOne ink _ _
  obtain ⟨draft, finish, read, depicts⟩ := reads rest stops (behind + 1 + 1)
  rw [← valueSource] at read
  have step := members_step found key (by rw [skip_nothing point]; rfl) read (by simp; omega)
  rw [String.ofList_toList] at step
  exact ⟨draft, _, _, finish, depicts, step⟩

/-- Members behind one another up to the end of the object. -/
theorem members_followed {texts : Json → List Char} (isGap : IsGap gap) (depth : Nat)
    {members : List (String × Json)}
    (each : ∀ member ∈ members, Shows levels (texts member.2) member.2) (rest : List Char)
    (offset : Nat) :
    ∃ drafts finish, Draft.members (Draft.value levels) false
        ⟨followed gap (lineStart depth ++ ['\x7d'])
          (members.map fun member => memberText member.1 (texts member.2)) ++ rest, offset⟩ =
      (drafts, .ok ⟨rest, finish⟩) ∧ DepictsMembers members drafts := by
  induction members generalizing offset with
  | nil =>
      have brace : Source.isBlank '\x7d' = false := rfl
      have split : followed gap (lineStart depth ++ ['\x7d']) [] ++ rest =
          lineStart depth ++ '\x7d' :: rest := by simp [followed]
      rw [List.map_nil, split, Draft.members]
      simp only [skip_gap (is_gap_line_start depth) brace, Draft.nextKey?, Source.pass,
        List.drop_one, List.tail_cons]
      exact ⟨[], _, rfl, rfl⟩
  | cons member members induction =>
      obtain ⟨draft, resume, after, finish, depicts, read⟩ :=
        @member_shown _ _ _ member.1 _ isGap (each member List.mem_cons_self) _
          (stops_followed gap depth '\x7d'
            (members.map fun member => memberText member.1 (texts member.2)) rest) false offset
      obtain ⟨drafts, last, others_read, others_depict⟩ :=
        induction (fun member place => each member (List.mem_cons_of_mem _ place)) finish
      rw [others_read] at read
      refine ⟨_, last, ?_, resume, draft, after, drafts, rfl, depicts, others_depict⟩
      simpa [followed] using read

theorem pretty_items_eq (depth : Nat) (items : List Json) :
    prettyItems depth items = items.map (prettyAt depth) := by
  induction items with
  | nil => rfl
  | cons item rest induction => rw [prettyItems, induction, List.map_cons]

theorem pretty_members_eq (depth : Nat) (members : List (String × Json)) :
    prettyMembers depth members =
      members.map fun member => quote member.1 ++ ": " ++ prettyAt depth member.2 := by
  induction members with
  | nil => rfl
  | cons member rest induction => rw [prettyMembers, induction, List.map_cons]

theorem intercalate_followed {separator : String} {gap : List Char}
    (comma : separator.toList = ',' :: gap) (ending : List Char) (part : String)
    (parts : List String) :
    (String.intercalate separator (part :: parts)).toList ++ ending =
      part.toList ++ followed gap ending (parts.map String.toList) := by
  induction parts generalizing part with
  | nil => simp [followed]
  | cons next rest induction =>
      rw [String.intercalate_cons_cons, String.toList_append, String.toList_append, comma,
        List.append_assoc, induction]
      simp [followed]

theorem block_eq {opening closing : String} {first last : Char} (opens : opening.toList = [first])
    (closes : closing.toList = [last]) (depth : Nat) (part : String) (parts : List String) :
    (block depth opening closing (part :: parts)).toList =
      first :: (lineStart (depth + 1) ++ (part.toList ++
        followed (lineStart (depth + 1)) (lineStart depth ++ [last]) (parts.map String.toList))) := by
  have comma : (",\n" ++ indentation (depth + 1)).toList = ',' :: lineStart (depth + 1) := by
    simp [indentation, lineStart]
  rw [← intercalate_followed comma, block, if_neg (by simp)]
  simp [indentation, lineStart, opens, closes]

theorem value_array (levels : Nat) (rest : List Char) (offset : Nat) :
    Draft.value (levels + 1) ⟨'[' :: rest, offset⟩ =
      let (items, finish) := Draft.items (Draft.value levels) true ⟨rest, offset + 1⟩
      (.array offset items (finish.map (·.offset)), finish) := by
  have bracket : Source.isBlank '[' = false := rfl
  rw [Draft.value.eq_def]
  simp only [skip_nothing bracket]
  rfl

theorem value_object (levels : Nat) (rest : List Char) (offset : Nat) :
    Draft.value (levels + 1) ⟨'\x7b' :: rest, offset⟩ =
      let (members, finish) := Draft.members (Draft.value levels) true ⟨rest, offset + 1⟩
      (.object offset members (finish.map (·.offset)), finish) := by
  have brace : Source.isBlank '\x7b' = false := rfl
  rw [Draft.value.eq_def]
  simp only [skip_nothing brace]
  rfl

theorem shows_array {depth : Nat} {items : List Json}
    (each : ∀ item ∈ items, Shows levels (prettyAt (depth + 1) item).toList item) :
    Shows (levels + 1) (prettyAt depth (.array items)).toList (.array items) := by
  rw [prettyAt, pretty_items_eq]
  cases items with
  | nil =>
      have text : (block depth "[" "]" ([].map (prettyAt (depth + 1)))).toList = ['[', ']'] := by
        simp [block]
      have bracket : Source.isBlank ']' = false := rfl
      rw [text]
      refine ⟨⟨'[', [']'], rfl, rfl, by decide⟩, fun rest _ offset => ?_⟩
      rw [List.cons_append, List.singleton_append, value_array, Draft.items]
      simp only [skip_nothing bracket, Draft.nextItem?, Source.pass, List.drop_one, List.tail_cons]
      exact ⟨_, _, rfl, offset, [], _, rfl, rfl⟩
  | cons item items =>
      have gap := is_gap_line_start (depth + 1)
      rw [List.map_cons, @block_eq _ _ '[' ']' (by simp) (by simp), List.map_map]
      refine ⟨⟨'[', _, rfl, rfl, by decide⟩, fun rest _ offset => ?_⟩
      obtain ⟨draft, finish, depicts, read⟩ := item_shown gap (each item List.mem_cons_self)
        (stops_followed (lineStart (depth + 1)) depth ']'
          (items.map fun item => (prettyAt (depth + 1) item).toList) rest) true (offset + 1)
      obtain ⟨drafts, last, others_read, others_depict⟩ := items_followed gap depth
        (fun item member => each item (List.mem_cons_of_mem _ member)) rest finish
      rw [others_read] at read
      simp only [if_true, List.nil_append] at read
      refine ⟨_, last, ?_, offset, draft :: drafts, last, rfl, draft, drafts, rfl, depicts,
        others_depict⟩
      simp only [List.cons_append, List.append_assoc, Function.comp_def]
      rw [value_array, read]
      rfl

theorem pretty_object (depth : Nat) (members : List (String × Json)) :
    ∃ rest, (prettyAt depth (.object members)).toList = '\x7b' :: rest := by
  rw [prettyAt, block]
  split <;> simp

theorem shows_object {depth : Nat} {members : List (String × Json)}
    (each : ∀ member ∈ members, Shows levels (prettyAt (depth + 1) member.2).toList member.2) :
    Shows (levels + 1) (prettyAt depth (.object members)).toList (.object members) := by
  have texts (member : String × Json) :
      (quote member.1 ++ ": " ++ prettyAt (depth + 1) member.2).toList =
        memberText member.1 (prettyAt (depth + 1) member.2).toList := by
    simp [memberText]
  rw [prettyAt, pretty_members_eq]
  cases members with
  | nil =>
      have text : (block depth "\x7b" "\x7d" []).toList = ['\x7b', '\x7d'] := by simp [block]
      have brace : Source.isBlank '\x7d' = false := rfl
      rw [List.map_nil, text]
      refine ⟨⟨'\x7b', ['\x7d'], rfl, rfl, by decide⟩, fun rest _ offset => ?_⟩
      rw [List.cons_append, List.singleton_append, value_object, Draft.members]
      simp only [skip_nothing brace, Draft.nextKey?, Source.pass, List.drop_one, List.tail_cons]
      exact ⟨_, _, rfl, offset, [], _, rfl, rfl⟩
  | cons member members =>
      have gap := is_gap_line_start (depth + 1)
      rw [List.map_cons, @block_eq _ _ '\x7b' '\x7d' (by simp) (by simp), List.map_map, texts]
      refine ⟨⟨'\x7b', _, rfl, rfl, by decide⟩, fun rest _ offset => ?_⟩
      obtain ⟨draft, resume, after, finish, depicts, read⟩ :=
        @member_shown _ _ _ member.1 _ gap (each member List.mem_cons_self) _
          (stops_followed (lineStart (depth + 1)) depth '\x7d' (members.map fun member =>
            memberText member.1 (prettyAt (depth + 1) member.2).toList) rest) true (offset + 1)
      obtain ⟨drafts, last, others_read, others_depict⟩ := @members_followed _ _
        (fun value => (prettyAt (depth + 1) value).toList) gap depth _
        (fun member place => each member (List.mem_cons_of_mem _ place)) rest finish
      rw [others_read] at read
      simp only [if_true, List.nil_append] at read
      refine ⟨_, last, ?_, offset, _, last, rfl, resume, draft, after, drafts, rfl, depicts,
        others_depict⟩
      simp only [List.cons_append, List.append_assoc, Function.comp_def, texts]
      rw [value_object, read]
      rfl

/-- A document is read back from its text. -/
theorem shows_pretty {json : Json} (readable : Readable levels json) (depth : Nat) :
    Shows levels (prettyAt depth json).toList json := by
  induction readable generalizing depth with
  | null =>
      have text : (prettyAt depth .null).toList = ['n', 'u', 'l', 'l'] := by simp [prettyAt]
      rw [text]
      exact shows_scalar rfl (by decide) (fun _ _ _ => ⟨_, rfl⟩) fun extent => ⟨extent, rfl⟩
  | bool value =>
      cases value with
      | false =>
          have text : (prettyAt depth (.bool false)).toList = ['f', 'a', 'l', 's', 'e'] := by
            simp [prettyAt]
          rw [text]
          exact shows_scalar rfl (by decide) (fun _ _ _ => ⟨_, rfl⟩) fun extent => ⟨extent, rfl⟩
      | true =>
          have text : (prettyAt depth (.bool true)).toList = ['t', 'r', 'u', 'e'] := by
            simp [prettyAt]
          rw [text]
          exact shows_scalar rfl (by decide) (fun _ _ _ => ⟨_, rfl⟩) fun extent => ⟨extent, rfl⟩
  | int number => exact shows_number _ number
  | str text => exact shows_quote _ text
  | array each induction => exact shows_array fun item member => induction item member (depth + 1)
  | object each induction =>
      exact shows_object fun member place => induction member place (depth + 1)

/-- The text of a document on lines of its own is read to its end. -/
theorem first_pretty {json : Json} (readable : Readable Draft.maxDepth json) :
    ∃ draft finish, Draft.first (json.pretty ++ "\n").toList = (draft, .ok finish) ∧
      Draft.trailing? finish = none ∧ Depicts json draft := by
  have stops : Stops ['\n'] := fun c front => .inr (Option.some.inj front).symm
  obtain ⟨draft, finish, read, depicts⟩ := (shows_pretty readable 0).2 ['\n'] stops 0
  refine ⟨draft, ⟨['\n'], finish⟩, ?_, rfl, depicts⟩
  rw [Draft.first, pretty, String.toList_append]
  exact read

end DetectionRules.Json
