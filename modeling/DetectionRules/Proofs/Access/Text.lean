import DetectionRules.Text.Basic
import Mathlib.Data.List.TakeWhile
import DetectionRules.Proofs.Success
import DetectionRules.Token.Basic

/-!
Access to parts of a text. A text is cut at byte places. A place past the end of
the text or inside a character is out of range, and what needs a part that is
out of range comes to nothing.

Access while text is cut into tokens. The places of a text are found by adding up
the bytes of what was taken, so each token begins where a part of the text ends.
-/

namespace DetectionRules.Text

variable {test : Char → Bool} {place first last : Nat} {text front rest : List Char}

/-- The text from a place on. -/
def from? : Nat → List Char → Option (List Char)
  | 0, text => some text
  | _ + 1, [] => none
  | bytes + 1, c :: rest =>
      if c.utf8Size ≤ bytes + 1 then from? (bytes + 1 - c.utf8Size) rest else none

/-- The text up to a place. -/
def upTo? : Nat → List Char → Option (List Char)
  | 0, _ => some []
  | _ + 1, [] => none
  | bytes + 1, c :: rest =>
      if c.utf8Size ≤ bytes + 1 then (upTo? (bytes + 1 - c.utf8Size) rest).map (c :: ·) else none

/-- The text from one place up to another, which must not come before it. -/
def between? (first last : Nat) (text : List Char) : Option (List Char) :=
  if first ≤ last then do upTo? (last - first) (← from? first text) else none

def withoutLast? (bytes : Nat) (text : List Char) : Option (List Char) :=
  if bytes ≤ byteCount text then upTo? (byteCount text - bytes) text else none

/-- The place of the first character that passes a test. -/
def placeOf? (test : Char → Bool) : List Char → Option Nat
  | [] => none
  | c :: rest => if test c then some 0 else (placeOf? test rest).map (c.utf8Size + ·)

@[simp]
theorem byte_count_append (front rest : List Char) :
    byteCount (front ++ rest) = byteCount front + byteCount rest := by
  induction front with
  | nil => simp [byteCount]
  | cons c front induction =>
      rw [List.cons_append, byteCount, byteCount, induction]
      omega

theorem byte_count_eq_zero : byteCount text = 0 ↔ text = [] := by
  cases text with
  | nil => simp [byteCount]
  | cons c rest =>
      have wide := c.utf8Size_pos
      simp only [byteCount, reduceCtorEq, iff_false]
      omega

/-- A place is in range if and only if a part of the text ends there. -/
theorem from_eq_some_iff :
    from? place text = some rest ↔ ∃ front, text = front ++ rest ∧ byteCount front = place := by
  induction place, text using from?.induct with
  | case1 text =>
      simp only [from?, byte_count_eq_zero, Option.some.injEq]
      constructor
      · rintro rfl
        exact ⟨[], rfl, rfl⟩
      · rintro ⟨front, whole, rfl⟩
        exact whole
  | case2 bytes =>
      simp only [from?, reduceCtorEq, false_iff, not_exists, not_and]
      intro front whole
      obtain ⟨rfl, -⟩ := List.append_eq_nil_iff.mp whole.symm
      simp [byteCount]
  | case3 bytes c others wide induction =>
      rw [from?, if_pos wide, induction]
      constructor
      · rintro ⟨front, rfl, count⟩
        exact ⟨c :: front, rfl, by rw [byteCount, count, Nat.add_sub_of_le wide]⟩
      · rintro ⟨front, whole, count⟩
        cases front with
        | nil => simp [byteCount] at count
        | cons d front =>
            obtain ⟨rfl, rfl⟩ := List.cons.inj whole
            rw [byteCount] at count
            exact ⟨front, rfl, by omega⟩
  | case4 bytes c others wide =>
      rw [from?, if_neg wide]
      simp only [reduceCtorEq, false_iff, not_exists, not_and]
      intro front whole
      cases front with
      | nil => simp [byteCount]
      | cons d front =>
          obtain ⟨rfl, rfl⟩ := List.cons.inj whole
          rw [byteCount]
          omega

theorem up_to_byte_count (front rest : List Char) :
    upTo? (byteCount front) (front ++ rest) = some front := by
  induction front with
  | nil => cases rest <;> rfl
  | cons c front induction =>
      have wide := c.utf8Size_pos
      obtain ⟨bytes, count⟩ : ∃ bytes, byteCount (c :: front) = bytes + 1 :=
        ⟨c.utf8Size + byteCount front - 1, by rw [byteCount]; omega⟩
      have fits : c.utf8Size ≤ bytes + 1 := by
        rw [← count, byteCount]
        omega
      have others : bytes + 1 - c.utf8Size = byteCount front := by
        rw [← count, byteCount]
        omega
      rw [count, List.cons_append, upTo?, if_pos fits, others, induction]
      rfl

theorem from_of_suffix (ending : rest <:+ text) :
    from? (byteCount text - byteCount rest) text = some rest := by
  obtain ⟨front, rfl⟩ := ending
  exact from_eq_some_iff.mpr ⟨front, rfl, by rw [byte_count_append, Nat.add_sub_cancel]⟩

theorem from_add (here : from? place text = some (front ++ rest)) :
    from? (place + byteCount front) text = some rest := by
  obtain ⟨before, rfl, rfl⟩ := from_eq_some_iff.mp here
  exact from_eq_some_iff.mpr ⟨before ++ front, by simp, by simp⟩

theorem from_next {c : Char} (here : from? place text = some (c :: rest)) :
    from? (place + c.utf8Size) text = some rest := by
  have next := @from_add place text [c] rest here
  simpa [byteCount] using next

theorem between_of_from (here : from? place text = some (front ++ rest)) :
    between? place (place + byteCount front) text = some front := by
  rw [between?, if_pos (Nat.le_add_right _ _), here, Nat.add_sub_cancel_left]
  exact up_to_byte_count front rest

theorem byte_count_of_from (here : from? place text = some rest) :
    byteCount text = place + byteCount rest := by
  obtain ⟨front, rfl, rfl⟩ := from_eq_some_iff.mp here
  exact byte_count_append front rest

theorem without_last_append (front rest : List Char) :
    withoutLast? (byteCount rest) (front ++ rest) = some front := by
  rw [withoutLast?, byte_count_append, if_pos (Nat.le_add_left _ _), Nat.add_sub_cancel]
  exact up_to_byte_count front rest

theorem from_of_head {c : Char} (begins : text.head? = some c) :
    from? c.utf8Size text = some (text.drop 1) := by
  obtain ⟨rest, rfl⟩ := List.head?_eq_some_iff.mp begins
  exact from_eq_some_iff.mpr ⟨[c], rfl, rfl⟩

theorem without_last_of_last {c : Char} (ends : text.getLast? = some c) :
    withoutLast? c.utf8Size text = some text.dropLast := by
  obtain ⟨front, rfl⟩ := List.getLast?_eq_some_iff.mp ends
  rw [List.dropLast_concat]
  exact without_last_append front [c]

theorem of_place_of (found : placeOf? test text = some place) :
    ∃ front c behind, text = front ++ c :: behind ∧ byteCount front = place ∧ test c = true ∧
      text.takeWhile (fun c => !test c) = front := by
  induction text generalizing place with
  | nil => cases found
  | cons c rest induction =>
      rw [placeOf?] at found
      split at found
      · rename_i passes
        cases found
        exact ⟨[], c, rest, rfl, rfl, passes, by simp [passes]⟩
      · rename_i fails
        obtain ⟨bytes, later, rfl⟩ := Option.map_eq_some_iff.mp found
        obtain ⟨front, d, behind, rfl, rfl, passes, before⟩ := induction later
        refine ⟨c :: front, d, behind, rfl, rfl, passes, ?_⟩
        rw [List.takeWhile_cons_of_pos (by simpa using fails), before]

theorem of_place_of_none (missing : placeOf? test text = none) :
    text.takeWhile (fun c => !test c) = text := by
  induction text with
  | nil => rfl
  | cons c rest induction =>
      rw [placeOf?] at missing
      split at missing
      · cases missing
      · rename_i fails
        have later := induction (Option.map_eq_none_iff.mp missing)
        rw [List.takeWhile_cons_of_pos (by simpa using fails), later]

theorem place_of_or_end (test : Char → Bool) (text : List Char) :
    (placeOf? test text).getD (byteCount text) =
      byteCount (text.takeWhile fun c => !test c) := by
  cases found : placeOf? test text with
  | none => rw [of_place_of_none found, Option.getD_none]
  | some place =>
      obtain ⟨front, c, behind, -, rfl, -, before⟩ := of_place_of found
      rw [before, Option.getD_some]

end DetectionRules.Text

namespace DetectionRules.Token

open Text (from? upTo? between? placeOf? byteCount)

/-- A lexeme and the place where it ends, or what is wrong with it. -/
abbrev Found : Type := Except String (Lexeme × Nat)

/-- The text between quotes, of which the first is at a place of the text. -/
def quotedAt? (scan : List Char → Option (List Char × Nat)) (text : List Char) (place : Nat) :
    Option Found := do
  let rest ← from? (place + 1) text
  match scan rest with
  | some (quoted, size) =>
      return .ok (.quoted (String.ofList quoted), place + 1 + byteCount (rest.take size))
  | none => return .error "unterminated string"

def backtickedAt? (text : List Char) (place : Nat) : Option Found := do
  let rest ← from? (place + 1) text
  match placeOf? (· == '\x60') rest with
  | some close =>
      let quoted ← upTo? close rest
      return .ok (.quoted (String.ofList quoted), place + close + 2)
  | none => return .error "unterminated backtick string"

def slashedAt? (text : List Char) (place : Nat) : Option Found := do
  let rest ← from? (place + 1) text
  match scanSlashed rest with
  | some (body, size) =>
      let start := place + 1 + byteCount (rest.take size)
      let behind ← from? start text
      let length := (placeOf? (fun c => !c.isAlpha) behind).getD (byteCount text - start)
      let flags ← between? start (start + length) text
      return .ok (.pattern (String.ofList body) (String.ofList flags), start + length)
  | none => return .error "unterminated regex literal"

def plainAt? (quoting : Quoting) (text : List Char) (place : Nat) (c : Char) : Option Found := do
  let here ← from? place text
  match sign? here with
  | some sign => return .ok (.symbol sign, place + byteCount sign.toList)
  | none =>
      let stop := ((placeOf? (endsWord quoting) (here.drop 1)).map fun bytes =>
        place + c.utf8Size + bytes).getD (byteCount text)
      let word ← between? place stop text
      return .ok (.word (String.ofList word), stop)

/-- The token that begins with `c` at a place of the text. -/
def scanInRange? (quoting : Quoting) (text : List Char) (place : Nat) (c : Char) : Option Found :=
  if c = '"' then quotedAt? scanDoubleQuoted text place
  else if c = '\'' && quoting.single then quotedAt? scanSingleQuoted text place
  else if c = '\x60' && quoting.backticks then backtickedAt? text place
  else if c = '/' && quoting.slashes then slashedAt? text place
  else plainAt? quoting text place c

/-- Cuts text into tokens from a place on. Each token must end behind the place where it begins. -/
def listFromInRange? (quoting : Quoting) (text : List Char) (place : Nat) :
    Option (Except Fault (List Token)) :=
  match _ : from? place text with
  | none => none
  | some [] => some (.ok [])
  | some (c :: _) =>
      if Text.isBlank c then listFromInRange? quoting text (place + c.utf8Size)
      else
        match scanInRange? quoting text place c with
        | none => none
        | some (.error reason) => some (.error (.malformed (some place) reason))
        | some (.ok (lexeme, next)) =>
            if place < next then
              (listFromInRange? quoting text next).map (·.map (⟨lexeme, place⟩ :: ·))
            else none
termination_by byteCount text - place
decreasing_by
  all_goals
    have whole := Text.byte_count_of_from ‹from? place text = _›
    have wide := c.utf8Size_pos
    rw [byteCount] at whole
    omega

def listInRange? (quoting : Quoting) (text : String) : Option (Except Fault (List Token)) :=
  listFromInRange? quoting text.toList 0

def ending (place : Nat) (c : Char) (rest : List Char) (found : Lexeme × Nat) : Lexeme × Nat :=
  (found.1, place + c.utf8Size + byteCount (rest.take found.2))

section Scanning

variable {quoting : Quoting} {text rest : List Char} {place : Nat} {c : Char}

theorem scan_backticked_eq (rest : List Char) :
    scanBackticked rest = (placeOf? (· == '\x60') rest).map fun _ =>
      (rest.takeWhile fun c => !(c == '\x60'),
        (rest.takeWhile fun c => !(c == '\x60')).length + 1) := by
  induction rest with
  | nil => rfl
  | cons c rest induction =>
      by_cases tick : c = '\x60'
      · subst tick
        rfl
      · have other : (c == '\x60') = false := by simpa using tick
        rw [scanBackticked, induction, placeOf?]
        · simp only [other, Bool.false_eq_true, if_false, Option.map_map]
          rw [List.takeWhile_cons_of_pos (by simpa using tick)]
          rfl
        · exact tick

theorem quoted_at_eq {scan : List Char → Option (List Char × Nat)} (one : c.utf8Size = 1)
    (next : from? (place + 1) text = some rest) :
    quotedAt? scan text place = some ((match scan rest with
      | some (quoted, size) => Except.ok (Lexeme.quoted (String.ofList quoted), size)
      | none => Except.error "unterminated string").map (ending place c rest)) := by
  rw [quotedAt?, next]
  cases found : scan rest with
  | none => simp [found, Except.map]
  | some scanned => simp [found, Except.map, ending, one]

theorem backticked_at_eq (next : from? (place + 1) text = some rest) :
    backtickedAt? text place = some ((match scanBackticked rest with
      | some (quoted, size) => Except.ok (Lexeme.quoted (String.ofList quoted), size)
      | none => Except.error "unterminated backtick string").map (ending place '\x60' rest)) := by
  rw [backtickedAt?, next, scan_backticked_eq]
  cases found : placeOf? (· == '\x60') rest with
  | none => simp [found, Except.map]
  | some close =>
      obtain ⟨front, c, behind, rfl, rfl, tick, before⟩ := Text.of_place_of found
      obtain rfl : c = '\x60' := by simpa using tick
      have cut : upTo? (byteCount front) (front ++ '\x60' :: behind) = some front :=
        Text.up_to_byte_count _ _
      have taken : (front ++ '\x60' :: behind).take (front.length + 1) = front ++ ['\x60'] := by
        rw [List.take_append]
        simp
      have one : byteCount ['\x60'] = 1 := rfl
      have width : '\x60'.utf8Size = 1 := rfl
      have stop : place + byteCount front + 2 = place + 1 + (byteCount front + 1) := by omega
      simp only [Option.bind_eq_bind, Option.bind_some, found, cut, before, stop, Option.pure_def,
        Option.map_some, Except.map, ending, taken, Text.byte_count_append, one, width]

theorem slashed_at_eq (next : from? (place + 1) text = some rest) :
    slashedAt? text place = some ((match scanSlashed rest with
      | some (body, size) =>
          let flags := (rest.drop size).takeWhile Char.isAlpha
          Except.ok (Lexeme.pattern (String.ofList body) (String.ofList flags),
            size + flags.length)
      | none => Except.error "unterminated regex literal").map (ending place '/' rest)) := by
  rw [slashedAt?, next]
  cases found : scanSlashed rest with
  | none => simp [found, Except.map]
  | some scanned =>
      obtain ⟨body, size⟩ := scanned
      have behind : from? (place + 1 + byteCount (rest.take size)) text = some (rest.drop size) :=
        Text.from_add (by rw [List.take_append_drop]; exact next)
      have length : (placeOf? (fun c => !c.isAlpha) (rest.drop size)).getD
          (byteCount text - (place + 1 + byteCount (rest.take size))) =
            byteCount ((rest.drop size).takeWhile Char.isAlpha) := by
        rw [Text.byte_count_of_from behind, Nat.add_sub_cancel_left, Text.place_of_or_end]
        simp only [Bool.not_not]
      have flags : between? (place + 1 + byteCount (rest.take size))
          (place + 1 + byteCount (rest.take size) +
            byteCount ((rest.drop size).takeWhile Char.isAlpha)) text =
          some ((rest.drop size).takeWhile Char.isAlpha) := by
        rw [← @List.takeWhile_append_dropWhile _ Char.isAlpha (rest.drop size)] at behind
        exact Text.between_of_from behind
      have taken : rest.take (size + ((rest.drop size).takeWhile Char.isAlpha).length) =
          rest.take size ++ (rest.drop size).takeWhile Char.isAlpha := by
        rw [List.take_add, ← List.prefix_iff_eq_take.mp (List.takeWhile_prefix _)]
      have width : '/'.utf8Size = 1 := rfl
      simp only [Option.bind_eq_bind, Option.bind_some, found, behind, length, flags, taken, width,
        Option.pure_def, Except.map, ending, Text.byte_count_append, ← Nat.add_assoc]

theorem behind_sign {sign : String} (found : sign? (c :: rest) = some sign) :
    ∃ others behind, sign.toList = c :: others ∧ rest = others ++ behind := by
  have begins := @List.find?_some _ (fun sign : String => sign.toList.isPrefixOf (c :: rest)) _ _
    found
  obtain ⟨behind, whole⟩ := List.isPrefixOf_iff_prefix.mp begins
  have filled : ∀ sign ∈ signs, sign.toList ≠ [] := by decide
  obtain ⟨d, others, spelled⟩ :=
    List.exists_cons_of_ne_nil (filled sign (List.mem_of_find?_eq_some found))
  rw [spelled, List.cons_append] at whole
  obtain ⟨rfl, rfl⟩ := List.cons.inj whole
  exact ⟨others, behind, spelled, rfl⟩

theorem plain_at_eq (here : from? place text = some (c :: rest)) :
    plainAt? quoting text place c = some ((match sign? (c :: rest) with
      | some sign => Except.ok (Lexeme.symbol sign, sign.length - 1)
      | none =>
          let others := rest.takeWhile fun c => !endsWord quoting c
          Except.ok (Lexeme.word (String.ofList (c :: others)), others.length)).map
        (ending place c rest)) := by
  rw [plainAt?, here]
  cases found : sign? (c :: rest) with
  | some sign =>
      obtain ⟨others, behind, spelled, rfl⟩ := behind_sign found
      have size : sign.length - 1 = others.length := by
        rw [← String.length_toList, spelled]
        rfl
      simp only [Option.bind_eq_bind, Option.bind_some, found, Option.pure_def, Except.map, ending,
        size, spelled, byteCount, List.take_left, Nat.add_assoc]
  | none =>
      have stop : ((placeOf? (endsWord quoting) ((c :: rest).drop 1)).map fun bytes =>
          place + c.utf8Size + bytes).getD (byteCount text) =
            place + byteCount (c :: rest.takeWhile fun c => !endsWord quoting c) := by
        rw [byteCount, ← Text.place_of_or_end, Text.byte_count_of_from here, byteCount,
          List.drop_one, List.tail_cons]
        cases placeOf? (endsWord quoting) rest with
        | none => rfl
        | some bytes => exact Nat.add_assoc ..
      have word : between? place (place + byteCount (c :: rest.takeWhile fun c =>
          !endsWord quoting c)) text = some (c :: rest.takeWhile fun c => !endsWord quoting c) := by
        have parts := here
        rw [← @List.takeWhile_append_dropWhile _ (fun c => !endsWord quoting c) rest] at parts
        exact Text.between_of_from parts
      have taken : rest.take (rest.takeWhile fun c => !endsWord quoting c).length =
          rest.takeWhile fun c => !endsWord quoting c :=
        (List.prefix_iff_eq_take.mp (List.takeWhile_prefix _)).symm
      simp only [Option.bind_eq_bind, Option.bind_some, found, stop, word, Option.pure_def,
        Except.map, ending, taken]
      rw [byteCount, Nat.add_assoc]

/-- Where a token begins in range, all of it is in range. -/
theorem scan_in_range (here : from? place text = some (c :: rest)) :
    scanInRange? quoting text place c = some ((scan quoting c rest).map (ending place c rest)) := by
  have next := Text.from_next here
  unfold scanInRange? scan
  split_ifs with double single tick slash
  · subst double
    exact quoted_at_eq rfl next
  · obtain ⟨rfl, -⟩ : c = '\'' ∧ quoting.single = true := by simpa using single
    exact quoted_at_eq rfl next
  · obtain ⟨rfl, -⟩ : c = '\x60' ∧ quoting.backticks = true := by simpa using tick
    exact backticked_at_eq next
  · obtain ⟨rfl, -⟩ : c = '/' ∧ quoting.slashes = true := by simpa using slash
    exact slashed_at_eq next
  · exact plain_at_eq here

theorem list_from_in_range_cons (here : from? place text = some (c :: rest)) :
    listFromInRange? quoting text place =
      if Text.isBlank c then listFromInRange? quoting text (place + c.utf8Size)
      else
        match scanInRange? quoting text place c with
        | none => none
        | some (.error reason) => some (.error (.malformed (some place) reason))
        | some (.ok (lexeme, next)) =>
            if place < next then
              (listFromInRange? quoting text next).map (·.map (⟨lexeme, place⟩ :: ·))
            else none := by
  rw [listFromInRange?]
  split
  · rename_i cut
    cases here.symm.trans cut
  · rename_i cut
    cases here.symm.trans cut
  · rename_i cut
    cases here.symm.trans cut
    rfl

theorem list_from_in_range (here : from? place text = some rest) :
    listFromInRange? quoting text place = some (listFrom quoting place rest) := by
  fun_induction listFrom quoting place rest with
  | case1 place =>
      rw [listFromInRange?]
      split <;> simp_all
  | case2 place c rest blank induction =>
      rw [list_from_in_range_cons here, if_pos blank]
      exact induction (Text.from_next here)
  | case3 place c rest filled reason refused =>
      rw [list_from_in_range_cons here, if_neg filled, scan_in_range here, refused]
      rfl
  | case4 place c rest filled lexeme taken scanned induction =>
      have later : from? (place + c.utf8Size + byteCount (rest.take taken)) text =
          some (rest.drop taken) :=
        Text.from_add (by rw [List.take_append_drop]; exact Text.from_next here)
      have wide := c.utf8Size_pos
      have behind : place < place + c.utf8Size + byteCount (rest.take taken) := by omega
      rw [list_from_in_range_cons here, if_neg filled, scan_in_range here, scanned]
      simp only [Except.map, ending, if_pos behind, induction later, Option.map_some]
      cases listFrom quoting (place + c.utf8Size + byteCount (rest.take taken))
        (rest.drop taken) <;> rfl

end Scanning

/-- No text is too odd to be cut into tokens, or to be refused. -/
theorem list_in_range (quoting : Quoting) (text : String) :
    listInRange? quoting text = some (list quoting text) := by
  have start : from? 0 text.toList = some text.toList := by
    cases text.toList <;> rfl
  exact list_from_in_range start

end DetectionRules.Token
