/-
What the quoters and the literals write, as the lexer reads it. A quoted
text is one lexeme and means the text that was quoted, whatever that is:
the lexer is in the same state before and after every character of it
(`run_inside`). A numeral is words and symbols, and no more: it holds no
parenthesis, starts no comment and spells no bind operator.
-/
import Mathlib.Data.List.Chain
import Mathlib.Data.List.TakeWhile
import FilterQuery.Literal
import FilterQuery.Proofs.Sql.Lexer

namespace FilterQuery
namespace Sql

open Literal

variable {d : Dialect}

-- ============================================================ quoted texts

/-- Inside a quoted text, what is written for each character is read as
that character. -/
private theorem run_inside {q : Quotation} {write : Char → Text}
    (h : ∀ text c, run d (.quoted q text) (write c)
      = some ([], .quoted q (text ++ [c]))) (text t : Text) :
    run d (.quoted q text) (t.flatMap write)
      = some ([], .quoted q (text ++ t)) := by
  induction t generalizing text with
  | nil => simp [run]
  | cons c t ih =>
      rw [List.flatMap_cons, run_append (h text c) (ih (text ++ [c]))]
      simp

/-- A mark may be the last one. -/
private theorem step_quoted_mark (q : Quotation) (text : Text) :
    step d (.quoted q text) (q.mark d) = some ([], .closed q text) := by
  simp [step]

/-- A second mark shows that it was not: it stands for itself. -/
theorem step_closed_mark (q : Quotation) (text : Text) :
    step d (.closed q text) (q.mark d)
      = some ([], .quoted q (text ++ [q.mark d])) := by
  simp [step]

/-- Any other character stands for itself, but for the backslash in the
literals of a dialect that escapes with it. -/
private theorem step_quoted {q : Quotation} {c : Char} (h : c ≠ q.mark d)
    (hescape : ¬(d = .mysql ∧ q = .literal ∧ c = '\\')) (text : Text) :
    step d (.quoted q text) c = some ([], .quoted q (text ++ [c])) := by
  simp [step, h, hescape]

/-- A character written twice if it is the mark. -/
private theorem run_doubled {q : Quotation} {c : Char}
    (hescape : ¬(d = .mysql ∧ q = .literal ∧ c = '\\')) (text : Text) :
    run d (.quoted q text) (if c = q.mark d then [q.mark d, q.mark d] else [c])
      = some ([], .quoted q (text ++ [c])) := by
  by_cases h : c = q.mark d
  · rw [if_pos h, run, step_quoted_mark, Option.bind_some, run,
      step_closed_mark, Option.bind_some, h]
    rfl
  · rw [if_neg h, run, step_quoted h hescape]
    rfl

/-- A mark at the start opens a quoted text. -/
private theorem start_mark (q : Quotation) :
    start d (q.mark d) = some ([], .quoted q []) := by
  cases q <;> cases d <;> decide

/-- What is written between the marks is read as the text. -/
theorem run_enclosed {q : Quotation} {s t : Text}
    (h : run d (.quoted q []) (Text.doubling (q.mark d) s)
      = some ([], .quoted q t)) :
    run d .between (Text.enclosed (q.mark d) s)
      = some ([], .closed q t) := by
  have hmark : run d (.quoted q t) [q.mark d] = some ([], .closed q t) := by
    rw [run, step_quoted_mark]
    rfl
  unfold Text.enclosed
  rw [List.cons_append, run, step, start_mark, Option.bind_some,
    run_append h hmark]
  rfl

/-- A quoted identifier is one lexeme and names what was quoted. -/
theorem run_identifier (t : Text) :
    run d .between (d.quoter.identifier t)
      = some ([], .closed .identifier t) := by
  show run d .between (Text.enclosed (Quotation.identifier.mark d) t) = _
  apply run_enclosed
  have hwrite := fun text c =>
    run_doubled (d := d) (q := .identifier) (c := c) (by simp) text
  exact run_inside hwrite [] t

/-- A quoted value is one lexeme and means what was quoted. -/
theorem run_value (t : Text) :
    run d .between (d.quoter.value t) = some ([], .closed .literal t) := by
  cases d with
  | ansi =>
      show run .ansi .between
        (Text.enclosed (Quotation.literal.mark .ansi) t) = _
      apply run_enclosed
      have hwrite := fun text c =>
        run_doubled (d := .ansi) (q := .literal) (c := c) (by simp) text
      exact run_inside hwrite [] t
  | mysql =>
      show run .mysql .between
        (Text.enclosed (Quotation.literal.mark .mysql)
          (Text.doubling '\\' t)) = _
      apply run_enclosed
      -- A backslash is escaped by another one, and only a mark is doubled
      -- besides.
      have hwrite : ∀ text c, run .mysql (.quoted .literal text)
          (Text.doubling '\'' (if c = '\\' then ['\\', '\\'] else [c]))
            = some ([], .quoted .literal (text ++ [c])) := by
        intro text c
        by_cases hc : c = '\\'
        · subst hc
          rfl
        · have hdoubled := run_doubled (d := .mysql) (q := .literal)
            (c := c) (by simp [hc]) text
          rw [if_neg hc]
          unfold Text.doubling
          rw [List.flatMap_singleton]
          exact hdoubled
      have hdoubling : Text.doubling '\'' (Text.doubling '\\' t)
          = t.flatMap fun c =>
              Text.doubling '\''
                (if c = '\\' then ['\\', '\\'] else [c]) := by
        unfold Text.doubling
        exact List.flatMap_assoc
      show run .mysql _ (Text.doubling '\'' (Text.doubling '\\' t)) = _
      rw [hdoubling]
      exact run_inside hwrite [] t

/-- A text in the quotes of the dialect. -/
def Quotation.write (d : Dialect) : Quotation → Text → Text
  | identifier => d.quoter.identifier
  | literal => d.quoter.value

/-- A quoted text of either kind completes no lexeme before its last mark,
and then means what was quoted. -/
theorem run_write (q : Quotation) (s : Text) :
    run d .between (q.write d s) = some ([], .closed q s) := by
  cases q with
  | identifier => exact run_identifier s
  | literal => exact run_value s

/-- So two texts that are written alike are the same. -/
theorem write_injective (q : Quotation) :
    Function.Injective (q.write d) := by
  intro s t h
  have hrun := run_write (d := d) q s
  rw [h, run_write] at hrun
  simpa using hrun.symm

/-- So what two values are written as tells them apart. -/
theorem value_injective : Function.Injective d.quoter.value :=
  write_injective .literal

-- ================================================================== words

/-- A letter, a digit or an underscore at the start begins a word. -/
private theorem start_word {c : Char} (h : isWordChar c = true) :
    start d c = some ([], .word [c]) := by
  have hne : ∀ e : Char, isWordChar e = false → c ≠ e := by
    intro e he heq
    subst heq
    rw [he] at h
    cases h
  have hidentifier : c ≠ Quotation.identifier.mark d :=
    hne _ (by cases d <;> decide)
  have hliteral : c ≠ Quotation.literal.mark d :=
    hne _ (by cases d <;> decide)
  simp [start, hidentifier, hliteral, hne '(' (by decide),
    hne ')' (by decide), hne ' ' (by decide), h]

/-- A word goes on as long as there are characters for it. -/
private theorem run_word {w t : Text} (h : ∀ c ∈ t, isWordChar c = true) :
    run d (.word w) t = some ([], .word (w ++ t)) := by
  induction t generalizing w with
  | nil => simp [run]
  | cons c t ih =>
      have hc := h c (List.mem_cons_self ..)
      rw [run, step, if_pos hc, Option.bind_some,
        ih fun e he => h e (List.mem_cons_of_mem _ he)]
      simp [prepend]

/-- So a text of such characters is read as one word that may go on. -/
theorem run_between_word {t : Text} (hne : t ≠ [])
    (h : ∀ c ∈ t, isWordChar c = true) :
    run d .between t = some ([], .word t) := by
  cases t with
  | nil => exact absurd rfl hne
  | cons c t =>
      have hc := h c (List.mem_cons_self ..)
      rw [run, step, start_word hc, Option.bind_some,
        run_word fun e he => h e (List.mem_cons_of_mem _ he)]
      rfl

/-- The end of the text completes what has been read. -/
theorem lex_of_run {st : State} {t : Text} {ls ms : List Lexeme}
    (hrun : run d .between t = some (ls, st)) (hst : finish st = some ms) :
    lex d t = some (ls ++ ms) :=
  lexFrom_eq_some_iff.2 ⟨ls, st, ms, hrun, hst, rfl⟩

/-- By itself a quoted value is one literal. -/
theorem lex_value (t : Text) :
    lex d (d.quoter.value t) = some [.quoted .literal t] :=
  lex_of_run (run_value t) rfl

-- =============================================================== numerals

/-- The letters of a numeral. -/
def isNumeralLetter (c : Char) : Bool := c.isDigit || c == 'e' || c == 'E'

/-- A word of numeral letters, or a symbol. -/
def Lexeme.IsNumeric (l : Lexeme) : Prop :=
  (∃ w, l = .word w ∧ ∀ c ∈ w, isNumeralLetter c = true)
    ∨ ∃ s, l = .symbol s

/-- No two hyphens in a row. -/
def NoComment (t : Text) : Prop :=
  t.IsChain fun c e => ¬(c = '-' ∧ e = '-')

/-- What a numeral is written with. -/
structure NumeralText (t : Text) : Prop where
  chars : ∀ c ∈ t, isNumeralLetter c = true ∨ c ∈ ['+', '-', '.']
  noComment : NoComment t

/-- The letters of a numeral are characters of words. -/
private theorem isWordChar_of_isNumeralLetter {c : Char}
    (h : isNumeralLetter c = true) : isWordChar c = true := by
  simp only [isNumeralLetter, Bool.or_eq_true, beq_iff_eq] at h
  rcases h with (h | rfl) | rfl
  · simp [isWordChar, Char.isAlphanum, h]
  · decide
  · decide

/-- No character is one of a word and of a symbol. -/
private theorem isSymbolChar_of_isWordChar {c : Char}
    (h : isWordChar c = true) :
    isSymbolChar c = false := by
  cases hs : isSymbolChar c with
  | false => rfl
  | true =>
      simp only [isSymbolChar, List.contains_eq_mem, decide_eq_true_eq,
        List.mem_cons, List.not_mem_nil, or_false] at hs
      rcases hs with rfl | rfl | rfl | rfl | rfl | rfl | rfl <;> cases h

/-- A sign or a point at the start begins a symbol. -/
private theorem start_symbol {c : Char} (h : c ∈ ['+', '-', '.']) :
    start d c = some ([], .symbol [c]) := by
  simp only [List.mem_cons, List.not_mem_nil, or_false] at h
  rcases h with rfl | rfl | rfl <;> cases d <;> decide

/-- The state in a numeral; hyphens do not meet. -/
def InNumeral (st : State) (t : Text) : Prop :=
  st = .between
    ∨ (∃ w, st = .word w ∧ ∀ c ∈ w, isNumeralLetter c = true)
    ∨ ∃ s, st = .symbol s
        ∧ ¬(s.getLast? = some '-' ∧ t.head? = some '-')

/-- One more character of a numeral. -/
theorem step_numeral {st : State} {c : Char} {t : Text}
    (hst : InNumeral st (c :: t)) (ht : NumeralText (c :: t)) :
    ∃ ls next, step d st c = some (ls, next) ∧ InNumeral next t
      ∧ ∀ l ∈ ls, l.IsNumeric := by
  have hnil : ∀ l ∈ ([] : List Lexeme), l.IsNumeric :=
    fun l hl => absurd hl List.not_mem_nil
  rcases ht.chars c (List.mem_cons_self ..) with hletter | hsymbol
  · -- A letter goes on with a word, or starts one where a symbol ends.
    have hword := isWordChar_of_isNumeralLetter hletter
    have hnext : InNumeral (.word [c]) t :=
      Or.inr (Or.inl ⟨[c], rfl, by simpa using hletter⟩)
    rcases hst with rfl | ⟨w, rfl, hw⟩ | ⟨s, rfl, -⟩
    · exact ⟨[], .word [c], start_word hword, hnext, hnil⟩
    · refine ⟨[], .word (w ++ [c]), by simp [step, hword], ?_, hnil⟩
      refine Or.inr (Or.inl ⟨w ++ [c], rfl, fun e he => ?_⟩)
      rcases List.mem_append.1 he with he | he
      · exact hw e he
      · rw [List.mem_singleton.1 he]
        exact hletter
    · have hnot := isSymbolChar_of_isWordChar hword
      refine ⟨[.symbol s], .word [c], ?_, hnext, ?_⟩
      · simp [step, hnot, startAfter, start_word hword, prepend]
      · exact fun l hl => Or.inr ⟨s, List.mem_singleton.1 hl⟩
  · -- A sign goes on with a symbol, or starts one where a word ends.
    have hnot : isWordChar c = false := by
      simp only [List.mem_cons, List.not_mem_nil, or_false] at hsymbol
      rcases hsymbol with rfl | rfl | rfl <;> decide
    have hsym : isSymbolChar c = true := by
      simp only [List.mem_cons, List.not_mem_nil, or_false] at hsymbol
      rcases hsymbol with rfl | rfl | rfl <;> decide
    -- Two hyphens would start a comment, but they never meet.
    have hmeet : ∀ s : Text, s.getLast? = some c →
        ¬(s.getLast? = some '-' ∧ t.head? = some '-') := by
      intro s hs hmarks
      obtain ⟨hlast, hhead⟩ := hmarks
      have hchain := (List.isChain_cons.1 ht.noComment).1 '-' hhead
      rw [hs] at hlast
      exact hchain ⟨Option.some.inj hlast, rfl⟩
    have hnext : InNumeral (.symbol [c]) t :=
      Or.inr (Or.inr ⟨[c], rfl, hmeet [c] rfl⟩)
    rcases hst with rfl | ⟨w, rfl, hw⟩ | ⟨s, rfl, hs⟩
    · exact ⟨[], .symbol [c], start_symbol hsymbol, hnext, hnil⟩
    · refine ⟨[.word w], .symbol [c], ?_, hnext, ?_⟩
      · simp [step, hnot, startAfter, start_symbol hsymbol, prepend]
      · exact fun l hl => Or.inl ⟨w, List.mem_singleton.1 hl, hw⟩
    · have hapart : ¬(c = '-' ∧ s.getLast? = some '-') := by
        intro h
        obtain ⟨rfl, hlast⟩ := h
        exact hs ⟨hlast, rfl⟩
      refine ⟨[], .symbol (s ++ [c]), ?_, ?_, hnil⟩
      · simp only [step, hsym, if_true, if_neg hapart]
      · exact Or.inr (Or.inr ⟨s ++ [c], rfl, hmeet _ (by simp)⟩)

/-- What a numeral is written with is lexed as such, from any state within
one. -/
private theorem lexFrom_numeral {st : State} {t : Text} (hst : InNumeral st t)
    (ht : NumeralText t) :
    ∃ ls, lexFrom d st t = some ls ∧ ∀ l ∈ ls, l.IsNumeric := by
  induction t generalizing st with
  | nil =>
      rcases hst with rfl | ⟨w, rfl, hw⟩ | ⟨s, rfl, -⟩
      · exact ⟨[], rfl, fun l hl => absurd hl List.not_mem_nil⟩
      · exact ⟨[.word w], rfl,
          fun l hl => Or.inl ⟨w, List.mem_singleton.1 hl, hw⟩⟩
      · exact ⟨[.symbol s], rfl,
          fun l hl => Or.inr ⟨s, List.mem_singleton.1 hl⟩⟩
  | cons c t ih =>
      obtain ⟨ls, next, hstep, hnext, hls⟩ := step_numeral (d := d) hst ht
      obtain ⟨ms, hms, hnumeric⟩ := ih hnext
        ⟨fun e he => ht.chars e (List.mem_cons_of_mem _ he),
          (List.isChain_cons.1 ht.noComment).2⟩
      refine ⟨ls ++ ms, ?_, fun l hl => ?_⟩
      · rw [lexFrom, hstep, Option.bind_some, hms]
        rfl
      · rcases List.mem_append.1 hl with hl | hl
        · exact hls l hl
        · exact hnumeric l hl

-- ================================================= how numerals are built

/-- A numeral may be written from its end, as long as two hyphens do not
meet. -/
private theorem NumeralText.cons {c : Char} {t : Text} (ht : NumeralText t)
    (hc : isNumeralLetter c = true ∨ c ∈ ['+', '-', '.'])
    (h : c ≠ '-' ∨ t.head? ≠ some '-') : NumeralText (c :: t) where
  chars e he := by
    rcases List.mem_cons.1 he with rfl | he
    · exact hc
    · exact ht.chars e he
  noComment := ht.noComment.cons fun e he hce => by
    rcases h with h | h
    · exact h hce.1
    · exact h (hce.2 ▸ he)

/-- Digits in front change nothing. -/
theorem NumeralText.digits_append {s t : Text}
    (hs : ∀ c ∈ s, c.isDigit = true)
    (ht : NumeralText t ∧ t.head? ≠ some '-') :
    NumeralText (s ++ t) ∧ (s ++ t).head? ≠ some '-' := by
  induction s with
  | nil => exact ht
  | cons c s ih =>
      have hc := hs c (List.mem_cons_self ..)
      have hne : c ≠ '-' := by
        intro heq
        subst heq
        cases hc
      have hrest := ih fun e he => hs e (List.mem_cons_of_mem _ he)
      refine ⟨hrest.1.cons (Or.inl ?_) (Or.inl hne), ?_⟩
      · simp [isNumeralLetter, hc]
      · simpa using hne

private theorem numeralText_nil :
    NumeralText [] ∧ ([] : Text).head? ≠ some '-' :=
  ⟨⟨fun c hc => absurd hc List.not_mem_nil, .nil⟩, by simp⟩

/-- Digits are written as a numeral is. -/
private theorem numeralText_of_isDigits {t : Text} (h : t.isDigits = true) :
    NumeralText t ∧ t.head? ≠ some '-' := by
  have hall := (Text.isDigits_iff.1 h).2
  simpa using NumeralText.digits_append hall numeralText_nil

/-- A sign in front may be a hyphen, as none follows it. -/
private theorem NumeralText.of_dropSign {t : Text}
    (h : NumeralText (dropSign t) ∧ (dropSign t).head? ≠ some '-') :
    NumeralText t := by
  unfold dropSign at h
  split at h
  · exact h.1.cons (Or.inr (by simp)) (Or.inr h.2)
  · exact h.1.cons (Or.inr (by simp)) (Or.inr h.2)
  · exact h.1

/-- An exponent is written as a numeral is, and starts with a letter. -/
private theorem numeralText_of_isExponent {t : Text}
    (h : isExponent t = true) :
    NumeralText t ∧ t.head? ≠ some '-' := by
  cases t with
  | nil => exact numeralText_nil
  | cons c t =>
      simp only [isExponent, Bool.and_eq_true, Bool.or_eq_true,
        beq_iff_eq] at h
      obtain ⟨hc, ht⟩ := h
      have htail := NumeralText.of_dropSign (numeralText_of_isDigits ht)
      rcases hc with rfl | rfl
      · exact ⟨htail.cons (Or.inl rfl) (Or.inl (by decide)), by simp⟩
      · exact ⟨htail.cons (Or.inl rfl) (Or.inl (by decide)), by simp⟩

/-- So is a numeral without its sign, which starts with a digit or a point. -/
private theorem numeralText_of_isUnsigned {t : Text}
    (h : isUnsigned t = true) :
    NumeralText t ∧ t.head? ≠ some '-' := by
  have hdigits : ∀ (u : Text), ∀ c ∈ u.takeWhile Char.isDigit,
      c.isDigit = true := fun _ _ => List.mem_takeWhile_imp
  suffices hrest : NumeralText (t.dropWhile Char.isDigit)
      ∧ (t.dropWhile Char.isDigit).head? ≠ some '-' by
    have happend := NumeralText.digits_append (hdigits t) hrest
    rwa [List.takeWhile_append_dropWhile] at happend
  unfold isUnsigned at h
  split at h
  · rename_i u hu
    rw [Bool.and_eq_true] at h
    rw [hu]
    have hfraction := NumeralText.digits_append (hdigits u)
      (numeralText_of_isExponent h.2)
    rw [List.takeWhile_append_dropWhile] at hfraction
    exact ⟨hfraction.1.cons (Or.inr (by simp)) (Or.inl (by decide)),
      by simp⟩
  · rw [Bool.and_eq_true] at h
    exact numeralText_of_isExponent h.2

/-- Every numeral is written as numerals are. -/
theorem numeralText_of_isNumeral {t : Text} (h : isNumeral t = true) :
    NumeralText t := by
  exact NumeralText.of_dropSign (numeralText_of_isUnsigned h)

/-- A value as a number is lexed as words of numeral letters and
symbols. -/
theorem lex_number (value : Text) :
    ∃ ls, lex d (number value) = some ls ∧ ∀ l ∈ ls, l.IsNumeric := by
  have htext : NumeralText (number value) := by
    unfold number
    split
    · rename_i h
      exact numeralText_of_isNumeral h
    · exact (numeralText_of_isDigits (by decide)).1
  exact lexFrom_numeral (Or.inl rfl) htext

end Sql
end FilterQuery
