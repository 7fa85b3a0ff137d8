/-
Quoting is self-delimiting. Put in front of any text that does not go on
with its mark, a quoted text is the first lexeme of the whole: it is read
as what was quoted, and what is left is the text behind it, untouched.

Which lexeme is the first one is asked of the lexer itself (`first`), and
is what the lexer then puts before all others (`lex_of_first`). A quoted
text completes no lexeme before its last mark, whatever marks and escapes
are in it (`run_write`); so reading cannot stop inside of it
(`firstFrom_append`), and behind it reading stops just where no further
mark follows.
-/
import FilterQuery.Proofs.Sql.Literals

namespace FilterQuery
namespace Sql

-- ====================================================== the first lexeme

variable (d : Dialect)

/-- Whether a character belongs to what the lexer is in the middle of. -/
def goesOn : State → Char → Bool
  | .between, _ => false
  | .word _, c => isWordChar c
  | .symbol _, c => isSymbolChar c
  | .quoted .., _ | .escaped _, _ => true
  | .closed q _, c => c == q.mark d

/-- The first lexeme that is completed from a state on, and the text that
is left behind it. It is as long as it can be. -/
def firstFrom : State → Text → Option (Lexeme × Text)
  | st, [] =>
      match finish st with
      | some [l] => some (l, [])
      | _ => none
  | st, c :: t =>
      match finish st, goesOn d st c with
      | some [l], false => some (l, c :: t)
      | _, _ =>
          (step d st c).bind fun out =>
            match out.1 with
            | l :: _ => some (l, t)
            | [] => firstFrom out.2 t

/-- The first lexeme of a text, and the text that is left behind it. -/
def first (t : Text) : Option (Lexeme × Text) := firstFrom d .between t

variable {d}

/-- What does not belong to a complete lexeme starts another one. -/
theorem step_of_not_goesOn {st : State} {l : Lexeme} {c : Char}
    (hst : finish st = some [l]) (hc : goesOn d st c = false) :
    step d st c = startAfter d [l] c := by
  cases st with
  | between => cases hst
  | quoted q text => cases hst
  | escaped text => cases hst
  | word text =>
      obtain rfl : Lexeme.word text = l := by simpa [finish] using hst
      have hword : isWordChar c = false := hc
      simp [step, hword]
  | symbol text =>
      obtain rfl : Lexeme.symbol text = l := by simpa [finish] using hst
      have hsymbol : isSymbolChar c = false := hc
      simp [step, hsymbol]
  | closed q text =>
      obtain rfl : Lexeme.quoted q text = l := by simpa [finish] using hst
      have hmark : c ≠ q.mark d := by simpa [goesOn] using hc
      simp [step, hmark]

/-- A character that completes no lexeme is passed over. -/
private theorem firstFrom_cons {st next : State} {c : Char}
    (h : step d st c = some ([], next)) (t : Text) :
    firstFrom d st (c :: t) = firstFrom d next t := by
  rw [firstFrom]
  split
  · rename_i l hst hc
    rw [step_of_not_goesOn hst hc] at h
    obtain ⟨out, -, hout⟩ := Option.map_eq_some_iff.1 h
    cases hout
  · rw [h, Option.bind_some]

/-- So is a text that completes none. -/
theorem firstFrom_append {st last : State} {s : Text}
    (h : run d st s = some ([], last)) (t : Text) :
    firstFrom d st (s ++ t) = firstFrom d last t := by
  induction s generalizing st with
  | nil =>
      obtain ⟨-, rfl⟩ := Prod.mk.inj (Option.some.inj h)
      rfl
  | cons c s ih =>
      obtain ⟨⟨ls, next⟩, hstep, hrun⟩ := Option.bind_eq_some_iff.1 h
      obtain ⟨⟨ms, last'⟩, hrest, hout⟩ := Option.map_eq_some_iff.1 hrun
      obtain ⟨hnil, rfl⟩ := Prod.mk.inj hout
      obtain ⟨rfl, rfl⟩ := List.append_eq_nil_iff.1 hnil
      rw [List.cons_append, firstFrom_cons hstep, ih hrest]

/-- A lexeme put out by the first character is a parenthesis. -/
private theorem start_cons {c : Char} {l : Lexeme} {ls : List Lexeme}
    {st : State} (h : start d c = some (l :: ls, st)) :
    ls = [] ∧ st = .between := by
  unfold start at h
  repeat' split at h
  all_goals cases h
  all_goals exact ⟨rfl, rfl⟩

/-- A character that puts a lexeme out, though none is over before it, puts
out this one alone and leaves the lexer between lexemes. -/
private theorem step_cons {st next : State} {c : Char} {l : Lexeme}
    {ls : List Lexeme} (h : step d st c = some (l :: ls, next))
    (hst : ∀ l', finish st = some [l'] → goesOn d st c = true) :
    ls = [] ∧ next = .between := by
  cases st with
  | between => exact start_cons h
  | word text =>
      have hword : isWordChar c = true := hst _ rfl
      simp [step, hword] at h
  | symbol text =>
      have hsymbol : isSymbolChar c = true := hst _ rfl
      simp only [step, hsymbol, if_true] at h
      split at h <;> cases h
  | quoted q text =>
      simp only [step] at h
      split at h
      · cases h
      · split at h <;> cases h
  | escaped text => cases h
  | closed q text =>
      have hmark : c = q.mark d := by simpa [goesOn] using hst _ rfl
      simp [step, hmark] at h

/-- The first lexeme is the one that the lexer puts before those of the
text behind it. -/
theorem lexFrom_of_firstFrom {st : State} {t rest : Text} {l : Lexeme}
    (h : firstFrom d st t = some (l, rest)) :
    lexFrom d st t = (lex d rest).map (l :: ·) := by
  induction t generalizing st with
  | nil =>
      rw [firstFrom] at h
      split at h
      · rename_i l' hst
        obtain ⟨rfl, rfl⟩ := Prod.mk.inj (Option.some.inj h)
        exact hst
      · cases h
  | cons c t ih =>
      rw [firstFrom] at h
      split at h
      · rename_i l' hst hc
        obtain ⟨rfl, rfl⟩ := Prod.mk.inj (Option.some.inj h)
        exact lexFrom_of_startAfter (step_of_not_goesOn hst hc) t
      · rename_i hover
        obtain ⟨⟨ls, next⟩, hstep, hrest⟩ := Option.bind_eq_some_iff.1 h
        rw [lexFrom, hstep, Option.bind_some]
        cases ls with
        | nil => simpa using ih hrest
        | cons l' ls =>
            obtain ⟨rfl, rfl⟩ := Prod.mk.inj (Option.some.inj hrest)
            obtain ⟨rfl, rfl⟩ := step_cons hstep fun l'' hst => by
              simpa using hover l'' hst
            rfl

private theorem lex_of_first {t rest : Text} {l : Lexeme}
    (h : first d t = some (l, rest)) :
    lex d t = (lex d rest).map (l :: ·) :=
  lexFrom_of_firstFrom h

/-- What is left is a part of the text. -/
theorem length_le_of_firstFrom {st : State} {t rest : Text} {l : Lexeme}
    (h : firstFrom d st t = some (l, rest)) : rest.length ≤ t.length := by
  induction t generalizing st with
  | nil =>
      rw [firstFrom] at h
      split at h
      · obtain ⟨-, rfl⟩ := Prod.mk.inj (Option.some.inj h)
        exact Nat.le_refl _
      · cases h
  | cons c t ih =>
      rw [firstFrom] at h
      split at h
      · obtain ⟨-, rfl⟩ := Prod.mk.inj (Option.some.inj h)
        exact Nat.le_refl _
      · obtain ⟨⟨ls, next⟩, -, hrest⟩ := Option.bind_eq_some_iff.1 h
        cases ls with
        | nil => exact Nat.le_succ_of_le (ih hrest)
        | cons l' ls =>
            obtain ⟨-, rfl⟩ := Prod.mk.inj (Option.some.inj hrest)
            exact Nat.le_succ _

-- ========================================================== quoted texts

/-- Behind a mark a quoted text is over, unless the mark comes again. -/
theorem firstFrom_closed_iff (q : Quotation) (s t : Text) :
    firstFrom d (.closed q s) t = some (.quoted q s, t)
      ↔ t.head? ≠ some (q.mark d) := by
  cases t with
  | nil => simp [firstFrom, finish]
  | cons c t =>
      by_cases hc : c = q.mark d
      · subst hc
        rw [firstFrom_cons (step_closed_mark q s)]
        refine ⟨fun h => ?_, fun h => absurd rfl h⟩
        have hlength := length_le_of_firstFrom h
        rw [List.length_cons] at hlength
        omega
      · have hover : goesOn d (.closed q s) c = false := by
          simpa [goesOn] using hc
        rw [firstFrom, hover]
        simpa [finish] using hc

theorem first_write_iff (q : Quotation) (s t : Text) :
    first d (q.write d s ++ t) = some (.quoted q s, t)
      ↔ t.head? ≠ some (q.mark d) := by
  unfold first
  rw [firstFrom_append (run_write q s)]
  exact firstFrom_closed_iff q s t

/-- Of a quoted text, whatever it holds, with any text behind it, the lexer
reads the quoted text first, means by it what was quoted, and leaves the
text behind it, just if that does not start with the mark; the lexemes of
the whole are then this one and those of the text behind it. So no two
texts are quoted alike. -/
theorem quoted_delimits (d : Dialect) (q : Quotation) :
    (∀ s t, first d (q.write d s ++ t) = some (.quoted q s, t)
        ↔ t.head? ≠ some (q.mark d))
      ∧ (∀ s t, t.head? ≠ some (q.mark d) →
          lex d (q.write d s ++ t) = (lex d t).map (.quoted q s :: ·))
      ∧ Function.Injective (q.write d) :=
  ⟨first_write_iff q,
    fun s t ht => lex_of_first ((first_write_iff q s t).2 ht),
    write_injective q⟩

/-- Marks and backslashes in a row, at both ends of the text, in front of a
comparison that is always true. -/
theorem quoted_delimits_hostile :
    let s : Text := "\\'\\\\''".toList
    let t : Text := " OR '1' = '1'".toList
    Quotation.literal.write .mysql s = "'\\\\''\\\\\\\\'''''".toList
      ∧ t.head? ≠ some (Quotation.literal.mark .mysql)
      ∧ first .mysql (Quotation.literal.write .mysql s ++ t)
        = some (.quoted .literal s, t)
      ∧ lex .mysql (Quotation.literal.write .mysql s ++ t)
        = some [.quoted .literal s, .word "OR".toList, .quoted .literal ['1'],
            .symbol ['='], .quoted .literal ['1']] := by
  intro s t
  obtain ⟨hfirst, hlex, -⟩ := quoted_delimits .mysql .literal
  have ht : t.head? ≠ some (Quotation.literal.mark .mysql) := by decide
  refine ⟨rfl, ht, (hfirst s t).2 ht, ?_⟩
  rw [hlex s t ht]
  rfl

end Sql
end FilterQuery
