import DetectionRules.Proofs.Lookahead

/-!
Nothing is lost when text is cut into tokens. Places are bytes, and the loop that
goes from one place to the next is written with a limit on its turns and without
a look at whether a turn moves on, so that it comes to an end has to be proved.
-/

namespace DetectionRules.Token

open Text (from? byteCount)

/-- A token and the place where it ends. -/
structure Span where
  token : Token
  stop : Nat

/-- Cuts text from a place on; out of turns and out of range, it comes to nothing. -/
def cut? (quoting : Quoting) (text : List Char) : Nat → Nat → Option (Except Fault (List Span))
  | 0, _ => none
  | turns + 1, place => do
      match ← from? place text with
      | [] => return .ok []
      | c :: _ =>
          if Text.isBlank c then cut? quoting text turns (place + c.utf8Size)
          else
            match ← scanInRange? quoting text place c with
            | .error reason => return .error (.malformed (some place) reason)
            | .ok (lexeme, stop) =>
                let others ← cut? quoting text turns stop
                return others.map (⟨⟨lexeme, place⟩, stop⟩ :: ·)

/-- Characters that are one token by themselves, all of them. -/
def IsSource (quoting : Quoting) (lexeme : Lexeme) (source : List Char) : Prop :=
  ∃ c rest, source = c :: rest ∧ Text.isBlank c = false ∧
    scan quoting c rest = .ok (lexeme, rest.length)

namespace Span

variable {quoting : Quoting} {text : List Char}

/-- A part of the text, between the places of a span. -/
def Holds (text : List Char) (span : Span) (source : List Char) : Prop :=
  ∃ front behind, text = front ++ source ++ behind ∧ byteCount front = span.token.offset ∧
    span.stop = span.token.offset + byteCount source

def Contains (span : Span) (place : Nat) : Prop := span.token.offset ≤ place ∧ place < span.stop

end Span

variable {quoting : Quoting} {text : List Char} {place : Nat} {spans : List Span}

/-- Spans that take up a text from a place on, except for blanks. -/
structure CutsFrom (quoting : Quoting) (text : List Char) (place : Nat) (spans : List Span) :
    Prop where
  later : ∀ span ∈ spans, place ≤ span.token.offset
  written : ∀ span ∈ spans, ∃ source, span.Holds text source ∧
    IsSource quoting span.token.lexeme source
  apart : spans.Pairwise fun span other => span.stop ≤ other.token.offset
  blank : ∀ front c behind, text = front ++ c :: behind → place ≤ byteCount front →
    (∀ span ∈ spans, ¬span.Contains (byteCount front)) → Text.isBlank c = true

theorem cuts_from_end (here : from? place text = some []) : CutsFrom quoting text place [] := by
  refine ⟨by simp, by simp, .nil, fun front c behind whole later _ => ?_⟩
  have size := Text.byte_count_of_from here
  have wide := c.utf8Size_pos
  rw [whole, Text.byte_count_append, byteCount, byteCount] at size
  omega

theorem here_or_later {c d : Char} {front rest behind : List Char}
    (here : from? place text = some (c :: rest)) (whole : text = front ++ d :: behind)
    (later : place ≤ byteCount front) :
    d = c ∨ place + c.utf8Size ≤ byteCount front := by
  obtain ⟨before, same, rfl⟩ := Text.from_eq_some_iff.mp here
  rcases List.append_eq_append_iff.mp (same.symm.trans whole) with
    ⟨taken, rfl, ending⟩ | ⟨taken, rfl, ending⟩
  · cases taken with
    | nil => exact .inl (List.cons.inj ending).1.symm
    | cons e taken =>
        obtain ⟨rfl, -⟩ := List.cons.inj ending
        refine .inr ?_
        rw [Text.byte_count_append, byteCount]
        omega
  · rw [Text.byte_count_append] at later
    obtain rfl : taken = [] := Text.byte_count_eq_zero.mp (by omega)
    exact .inl (List.cons.inj ending).1

theorem cuts_from_blank {c : Char} {rest : List Char} (here : from? place text = some (c :: rest))
    (blank : Text.isBlank c = true) (cuts : CutsFrom quoting text (place + c.utf8Size) spans) :
    CutsFrom quoting text place spans := by
  refine ⟨fun span member => ?_, cuts.written, cuts.apart, ?_⟩
  · exact Nat.le_of_add_right_le (cuts.later span member)
  · intro front d behind whole later outside
    rcases here_or_later here whole later with rfl | next
    · exact blank
    · exact cuts.blank front d behind whole next outside

theorem cuts_from_token {c : Char} {rest : List Char} {lexeme : Lexeme} {size stop : Nat}
    (here : from? place text = some (c :: rest)) (ink : Text.isBlank c = false)
    (scanned : scan quoting c rest = .ok (lexeme, size))
    (ends : stop = place + c.utf8Size + byteCount (rest.take size))
    (cuts : CutsFrom quoting text stop spans) :
    CutsFrom quoting text place (⟨⟨lexeme, place⟩, stop⟩ :: spans) := by
  have forward : place ≤ stop := by omega
  refine ⟨?_, ?_, ?_, ?_⟩
  · refine List.forall_mem_cons.mpr ⟨Nat.le_refl _, fun span member => ?_⟩
    exact forward.trans (cuts.later span member)
  · refine List.forall_mem_cons.mpr ⟨?_, cuts.written⟩
    obtain ⟨front, behind, rfl, rfl, again⟩ := scan_again scanned
    obtain ⟨before, rfl, rfl⟩ := Text.from_eq_some_iff.mp here
    refine ⟨c :: front, ⟨before, behind, by simp, rfl, ?_⟩, c, front, rfl, ink, ?_⟩
    · rw [ends, List.take_left, byteCount, Nat.add_assoc]
    · simpa using again [] (.inr breaks_nil)
  · exact List.pairwise_cons.mpr ⟨fun span member => cuts.later span member, cuts.apart⟩
  · intro front d behind whole later outside
    obtain ⟨first, outside⟩ := List.forall_mem_cons.mp outside
    refine cuts.blank front d behind whole ?_ outside
    exact Nat.le_of_not_lt fun inside => first ⟨later, inside⟩

/-- From a place in range, a turn for each character and one more are enough. -/
theorem cut_from {rest : List Char} {turns : Nat} (here : from? place text = some rest)
    (enough : rest.length < turns) :
    ∃ cutting, cut? quoting text turns place = some cutting ∧
      listFrom quoting place rest = cutting.map (·.map (·.token)) ∧
      ∀ spans, cutting = .ok spans → CutsFrom quoting text place spans := by
  induction turns generalizing place rest with
  | zero => omega
  | succ turns induction =>
      cases rest with
      | nil =>
          refine ⟨.ok [], by simp [cut?, here], by rw [listFrom]; rfl, fun spans same => ?_⟩
          obtain rfl : [] = spans := by simpa using same
          exact cuts_from_end here
      | cons c rest =>
          have next := Text.from_next here
          rw [List.length_cons] at enough
          rw [cut?, here, listFrom]
          simp only [Option.bind_eq_bind, Option.bind_some]
          by_cases blank : Text.isBlank c = true
          · rw [if_pos blank, if_pos blank]
            obtain ⟨cutting, found, listed, cuts⟩ := induction next (by omega)
            exact ⟨cutting, found, listed, fun spans same => cuts_from_blank here blank (cuts spans same)⟩
          · rw [if_neg blank, if_neg blank, scan_in_range here]
            cases scanned : scan quoting c rest with
            | error reason => exact ⟨_, rfl, rfl, by simp⟩
            | ok found =>
                obtain ⟨lexeme, size⟩ := found
                have later : from? (place + c.utf8Size + byteCount (rest.take size)) text =
                    some (rest.drop size) :=
                  Text.from_add (by rw [List.take_append_drop]; exact next)
                generalize ends : place + c.utf8Size + byteCount (rest.take size) = stop at later
                obtain ⟨cutting, found, listed, cuts⟩ :=
                  induction later (by rw [List.length_drop]; omega)
                refine ⟨cutting.map (⟨⟨lexeme, place⟩, stop⟩ :: ·), ?_, ?_, ?_⟩
                · simp only [Except.map, ending, Option.bind_some, ends, found]
                  rfl
                · simp only [ends, listed]
                  cases cutting <;> rfl
                · cases cutting with
                  | error fault => simp [Except.map]
                  | ok others =>
                      intro spans same
                      obtain rfl : _ = spans := Except.ok.inj same
                      exact cuts_from_token here (by simpa using blank) scanned ends.symm
                        (cuts others rfl)

theorem is_word_of_scan {c : Char} {rest : List Char} {word : String} {size : Nat}
    (ink : Text.isBlank c = false) (scanned : scan quoting c rest = .ok (.word word, size)) :
    IsWord quoting word.toList := by
  rw [scan] at scanned
  split at scanned
  · split at scanned <;> cases scanned
  split at scanned
  · split at scanned <;> cases scanned
  split at scanned
  · split at scanned <;> cases scanned
  split at scanned
  · split at scanned <;> cases scanned
  split at scanned
  · cases scanned
  rename_i double single tick slash _ none
  cases scanned
  rw [String.toList_ofList]
  refine ⟨List.cons_ne_nil _ _, List.forall_mem_cons.mpr ⟨?_, ?_⟩, ?_⟩
  · have other := of_sign_none none double
    have apostrophe : quoting.single = true → c ≠ '\'' := fun on same => by simp [on, same] at single
    have backtick : quoting.backticks = true → c ≠ '\x60' := fun on same => by simp [on, same] at tick
    simp_all [endsWord]
  · intro d member
    simpa using List.mem_takeWhile_imp member
  · intro on start
    cases start
    simp [on] at slash

/-- Characters of a word, with nothing in them that is no part of words. -/
structure IsRun (quoting : Quoting) (word : List Char) : Prop where
  filled : word ≠ []
  ink : ∀ c ∈ word, Text.isBlank c = false
  signless : ∀ sign ∈ signs, ¬sign.toList <:+: word
  double : '"' ∉ word
  single : quoting.single = true → '\'' ∉ word
  backtick : quoting.backticks = true → '\x60' ∉ word

theorem IsWord.run {word : List Char} (isWord : IsWord quoting word) : IsRun quoting word := by
  have part := fun c member => ends_word_false (isWord.whole c member)
  refine ⟨isWord.filled, fun c member => (part c member).1, ?_, ?_, ?_, ?_⟩
  · intro sign known inside
    obtain ⟨c, others, same, ends⟩ := sign_start known
    exact (part c (inside.subset (by simp [same]))).2.1 ends
  · intro member
    exact (part '"' member).2.1 (by decide)
  · intro on member
    exact (part '\'' member).2.2.1 on rfl
  · intro on member
    exact (part '\x60' member).2.2.2 on rfl

/-- Spans of all the tokens of a text, with nothing but blanks outside of them. -/
structure Cuts (quoting : Quoting) (text : List Char) (spans : List Span) : Prop where
  written : ∀ span ∈ spans, ∃ source, span.Holds text source ∧
    IsSource quoting span.token.lexeme source
  inside : ∀ span ∈ spans, span.token.offset < span.stop ∧ span.stop ≤ byteCount text
  ascending : spans.Pairwise fun span other => span.token.offset < other.token.offset
  apart : spans.Pairwise fun span other =>
    ∀ place, ¬(span.Contains place ∧ other.Contains place)
  blank : ∀ front c behind, text = front ++ c :: behind →
    (∀ span ∈ spans, ¬span.Contains (byteCount front)) → Text.isBlank c = true
  words : ∀ span ∈ spans, ∀ word, span.token.lexeme = .word word → IsRun quoting word.toList

theorem Span.inside_of_holds {span : Span} {lexeme : Lexeme} {source : List Char}
    (holds : span.Holds text source) (isSource : IsSource quoting lexeme source) :
    span.token.offset < span.stop ∧ span.stop ≤ byteCount text := by
  obtain ⟨front, behind, rfl, start, ends⟩ := holds
  obtain ⟨c, rest, rfl, -, -⟩ := isSource
  have wide := c.utf8Size_pos
  simp only [Text.byte_count_append, byteCount] at ends ⊢
  omega

theorem CutsFrom.whole (cuts : CutsFrom quoting text 0 spans) : Cuts quoting text spans := by
  have inside : ∀ span ∈ spans, span.token.offset < span.stop ∧ span.stop ≤ byteCount text := by
    intro span member
    obtain ⟨source, holds, isSource⟩ := cuts.written span member
    exact Span.inside_of_holds holds isSource
  refine ⟨cuts.written, inside, ?_, ?_, ?_, ?_⟩
  · exact cuts.apart.imp_of_mem fun member _ apart => (inside _ member).1.trans_le apart
  · refine cuts.apart.imp fun apart place both => ?_
    exact absurd (both.1.2.trans_le apart) (Nat.not_lt.mpr both.2.1)
  · exact fun front c behind same => cuts.blank front c behind same (Nat.zero_le _)
  · intro span member word same
    obtain ⟨source, -, c, rest, rfl, ink, scanned⟩ := cuts.written span member
    rw [same] at scanned
    exact (is_word_of_scan ink scanned).run

/-- Cutting a text comes to an end, and what it leaves out are blanks. -/
theorem cutting_loses_nothing (quoting : Quoting) (text : String) :
    ∃ cutting, cut? quoting text.toList (text.length + 1) 0 = some cutting ∧
      list quoting text = cutting.map (·.map (·.token)) ∧
      ∀ spans, cutting = .ok spans → Cuts quoting text.toList spans := by
  have start : from? 0 text.toList = some text.toList := by
    cases text.toList <;> rfl
  have enough : text.toList.length < text.length + 1 := by
    rw [String.length_toList]
    exact Nat.lt_succ_self _
  obtain ⟨cutting, found, listed, cuts⟩ := cut_from start enough
  exact ⟨cutting, found, listed, fun spans same => (cuts spans same).whole⟩

end DetectionRules.Token
