/-
What a text leaves open, read one character at a time and with no tokens
in between: the mark of a quoted stretch, and the number of groups. It is
how a reader of a query would count, and it agrees with the passes of the
tokenizer (`scan_eq`): what changes the depth are the parentheses outside
quotes (`run_unquoted`), and those are the parentheses among the tokens.

`Scan.closing` is the text that closes what is open. Appending it leaves
the tokens in front of it as they are (`lexed_closing`).
-/
import FilterQuery.Proofs.Token.Unquoted

namespace FilterQuery

open Nesting Token

/-- What is open at a place in a text. -/
structure Scan where
  /-- The mark of the quoted stretch that the place is in. -/
  quote : Option Char
  /-- The number of parentheses open outside quotes. -/
  depth : Nat
  deriving DecidableEq, Repr

namespace Scan

/-- One more character; none, where a closing parenthesis outside quotes
has nothing to close. -/
def step (s : Scan) (c : Char) : Option Scan :=
  match s.quote, s.depth with
  | some quote, _ => some { s with quote := if c = quote then none else quote }
  | none, depth =>
      if isQuoteMark c then some { s with quote := some c }
      else if c = '(' then some { s with depth := depth + 1 }
      else if c = ')' then
        match depth with
        | 0 => none
        | depth + 1 => some { s with depth := depth }
      else some s

/-- All characters of a text. -/
def run (s : Scan) (t : Text) : Option Scan := t.foldlM step s

/-- What closes all that is open: the mark, then the parentheses. -/
def closing (s : Scan) : Text := s.quote.toList ++ List.replicate s.depth ')'

-- ================================================================== texts

theorem run_cons (s : Scan) (c : Char) (t : Text) :
    run s (c :: t) = (step s c).bind fun s => run s t := by
  unfold run
  exact List.foldlM_cons

theorem run_append (s : Scan) (t u : Text) :
    run s (t ++ u) = (run s t).bind fun s => run s u := by
  unfold run
  exact List.foldlM_append

/-- One character changes the count as the parenthesis that it is outside
quotes, if it is one. -/
theorem step_unquoted (st : OpenQuote) (d pos : Nat) (c : Char) :
    step ⟨st.map Prod.fst, d⟩ c
      = (level side? d (unquotedStep st pos c).1).map
          fun k => ⟨(unquotedStep st pos c).2.map Prod.fst, k⟩ := by
  obtain _ | ⟨quote, start⟩ := st
  · by_cases hq : isQuoteMark c = true
    · simp [step, unquotedStep, hq]
    by_cases ho : c = '('
    · subst ho
      rfl
    by_cases hc : c = ')'
    · subst hc
      cases d <;> rfl
    simp [step, unquotedStep, hq, parenOf?, ho, hc]
  · by_cases hc : c = quote <;> simp [step, unquotedStep, hc]

/-- A text changes the count as the parentheses outside quotes do. -/
theorem run_unquoted (st : OpenQuote) (d pos : Nat) (t : Text) :
    run ⟨st.map Prod.fst, d⟩ t
      = (level side? d (unquoted st pos t).1).map
          fun k => ⟨(unquoted st pos t).2.map Prod.fst, k⟩ := by
  induction t generalizing st d pos with
  | nil => rfl
  | cons c t ih =>
      rw [run_cons, step_unquoted st d pos, unquoted_cons, level_append]
      cases level side? d (unquotedStep st pos c).1 with
      | none => rfl
      | some k => exact ih _ k _

/-- What is read within open groups does not see how many there are. -/
theorem run_add {d e : Nat} {quote : Option Char} {t : Text}
    (h : run ⟨none, d⟩ t = some ⟨quote, e⟩) (k : Nat) :
    run ⟨none, d + k⟩ t = some ⟨quote, e + k⟩ := by
  have hrun : ∀ d, run ⟨none, d⟩ t
      = (level side? d (unquoted none 0 t).1).map
          fun k => ⟨(unquoted none 0 t).2.map Prod.fst, k⟩ :=
    fun d => run_unquoted none d 0 t
  rw [hrun] at h ⊢
  obtain ⟨e', hlevel, hscan⟩ := Option.map_eq_some_iff.1 h
  obtain ⟨rfl, rfl⟩ := mk.inj hscan
  rw [level_add hlevel k]
  rfl

end Scan

/-- What a text leaves open. -/
def scan (t : Text) : Option Scan := Scan.run ⟨none, 0⟩ t

/-- Counting characters is counting tokens. -/
theorem scan_eq {base : Nat} {t : Text} {ts : List Token} {last : Opened}
    (h : lexed base t = (ts, last)) :
    scan t
      = (level paren? 0 ts).map fun k => ⟨last.map Prod.fst, k⟩ := by
  have hrun := Scan.run_unquoted none 0 base t
  rw [unquoted_lexed h, level_parens] at hrun
  have hplace : last.place.map Prod.fst = last.map Prod.fst := by
    cases last <;> rfl
  rwa [hplace] at hrun

-- =============================================================== appending

namespace Token

/-- The mark of an open literal completes it, and nothing else changes. -/
theorem lexed_append_mark {base : Nat} {t : Text} {ts : List Token}
    {quote : Char} {opened : Token}
    (h : lexed base t = (ts, some (quote, opened))) :
    ∃ mark : Token, mark.text = [quote]
      ∧ lexed base (t ++ [quote]) = (ts ++ [opened.absorb mark], none) := by
  have hq := (isUngrouped_of_mem_lexed h).2.1
  have hmark : quoteMark? ⟨.delimiter, [quote], base + t.byteSize⟩
      = some quote := quoteMark?_eq_some.2 ⟨rfl, rfl, hq⟩
  refine ⟨⟨.delimiter, [quote], base + t.byteSize⟩, rfl, ?_⟩
  rw [lexed_append_cons (solitary_of_isQuoteMark hq), h]
  simp [pieces, quoteRun, quoteStep_close hmark]

/-- Closing parentheses behind a text that leaves no literal open. -/
theorem lexed_append_replicate {base : Nat} {t : Text} {ts : List Token}
    (h : lexed base t = (ts, none)) (k : Nat) :
    ∃ cs : List Token, cs.length = k ∧ (∀ c ∈ cs, c.isClosing = true)
      ∧ lexed base (t ++ List.replicate k ')') = (ts ++ cs, none) := by
  induction k with
  | zero => exact ⟨[], rfl, fun c hc => absurd hc List.not_mem_nil, by simpa⟩
  | succ k ih =>
      obtain ⟨cs, hlength, hcs, hlexed⟩ := ih
      have hsplit : t ++ List.replicate (k + 1) ')'
          = (t ++ List.replicate k ')') ++ [')'] := by
        rw [List.replicate_succ', List.append_assoc]
      rw [hsplit, lexed_append_closing, hlexed]
      generalize hc : (⟨.delimiter, [')'], _⟩ : Token) = c
      refine ⟨cs ++ [c], by simp [hlength], fun x hx => ?_, by simp⟩
      rcases List.mem_append.1 hx with hx | hx
      · exact hcs x hx
      · obtain rfl := List.mem_singleton.1 hx
        exact hc ▸ rfl

end Token
end FilterQuery
