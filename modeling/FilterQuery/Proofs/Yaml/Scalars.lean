/-
Scalars that stand on one line and hold printable ASCII characters only.
Nothing is folded in them: a quoted scalar is read as the text that its
characters and escapes spell, blanks at its ends included, and a plain one
inside a flow collection as the word up to the next sign of the collection.
Each character takes one byte and one column, so the position after a
scalar is told by its length.
-/
import FilterQuery.Json.Value
import FilterQuery.Yaml.Scalar

namespace FilterQuery

/-- From the space to the tilde. -/
def Text.IsPrintable (t : Text) : Prop :=
  ∀ c ∈ t, 0x20 ≤ c.toNat ∧ c.toNat ≤ 0x7E

instance (t : Text) : Decidable t.IsPrintable :=
  List.decidableBAll _ t

namespace Yaml

-- =========================================================== positions

/-- The position so many characters on, each taking one byte and none
ending the line. -/
def Mark.along (m : Mark) (n : Nat) : Mark :=
  ⟨m.index + n, m.line, m.column + n⟩

/-- Moving on twice is moving on by both lengths. -/
theorem Mark.along_along (m : Mark) (a b : Nat) :
    (m.along a).along b = m.along (a + b) := by
  simp [along, Nat.add_assoc]

section

variable {c : Char} (h : 0x20 ≤ c.toNat ∧ c.toNat ≤ 0x7E)

include h

/-- No printable character ends a line. -/
theorem isBreak_of_printable : isBreak c = false := by
  have hnot : c ≠ '\n' := by
    rintro rfl
    exact absurd h.1 (by decide)
  have hsmall := h.2
  simp only [isBreak, Bool.or_eq_false_iff, beq_eq_false_iff_ne, ne_eq]
  exact ⟨⟨hnot, by omega⟩, by omega⟩

/-- The tab does not print, so the only blank is the space. -/
private theorem isBlank_of_printable : isBlank c = (c == ' ') := by
  have hnot : c ≠ '\t' := by
    rintro rfl
    exact absurd h.1 (by decide)
  simp [isBlank, hnot]

/-- A printable character takes one byte and one column. -/
theorem after_of_printable (m : Mark) : m.after c = m.along 1 := by
  have hsize : c.utf8Size = 1 := by
    have hsmall : c.val ≤ 0x7F := by
      rw [UInt32.le_iff_toNat_le]
      exact Nat.le_trans h.2 (by decide)
    simp [Char.utf8Size, hsmall]
  simp [Mark.after, Mark.along, isBreak_of_printable h, hsize]

end

-- ============================================================== quoted

/-- In print a character stands for itself or behind a backslash. -/
theorem escapeChar_of_printable {c : Char}
    (h : 0x20 ≤ c.toNat ∧ c.toNat ≤ 0x7E) :
    ((c = '"' ∨ c = '\\') ∧ Json.escapeChar c = ['\\', c])
      ∨ ((c ≠ '"' ∧ c ≠ '\\') ∧ Json.escapeChar c = [c]) := by
  unfold Json.escapeChar
  split
  · exact .inl ⟨.inl rfl, rfl⟩
  · exact .inl ⟨.inr rfl, rfl⟩
  iterate 5 exact absurd h.1 (by decide)
  rename_i hquote hslash _ _ _ _ _
  rw [if_neg (by omega)]
  exact .inr ⟨⟨hquote, hslash⟩, rfl⟩

variable {f : Folding} {m : Mark}

/-- A blank is kept back until it is known whether more text follows. -/
private theorem readQuoted_blank (t : Text) :
    readQuoted false .text f m (' ' :: t)
      = readQuoted false .text (f.blank ' ') (m.after ' ') t := by
  rw [readQuoted, if_pos (by decide)]

/-- A character that needs no escape is text as it stands. Only in the first
column could it start a document marker. -/
private theorem readQuoted_char {c : Char} (hblank : isBlank c = false)
    (hbreak : isBreak c = false) (hm : 0 < m.column) (hquote : c ≠ '"')
    (hslash : c ≠ '\\') (t : Text) :
    readQuoted false .text f m (c :: t)
      = readQuoted false .text (f.push c) (m.after c) t := by
  have hcolumn : m.column ≠ 0 := by omega
  simp [readQuoted, hblank, hbreak, hcolumn, hquote, hslash]

/-- What stands behind a backslash is text, be it a mark or another
backslash. -/
private theorem readQuoted_escape {c : Char} (hc : c = '"' ∨ c = '\\')
    (hm : 0 < m.column) (t : Text) :
    readQuoted false .text f m ('\\' :: c :: t)
      = readQuoted false .text (f.settle.push c) ((m.after '\\').after c) t
      := by
  have hcolumn : m.column ≠ 0 := by omega
  have hslash : readQuoted false .text f m ('\\' :: c :: t)
      = readQuoted false .escape f.settle (m.after '\\') (c :: t) := by
    rw [readQuoted, if_neg (by decide), if_neg (by decide),
      if_neg (fun h => hcolumn h.1)]
    rfl
  rw [hslash]
  rcases hc with rfl | rfl <;> rfl

/-- The mark ends the scalar, and the blanks that were kept back belong to
it. -/
private theorem readQuoted_end (hm : 0 < m.column) (t : Text) :
    readQuoted false .text f m ('"' :: t)
      = some (f.settle.text, ⟨t, m.after '"'⟩) := by
  have hcolumn : m.column ≠ 0 := by omega
  rw [readQuoted, if_neg (by decide), if_neg (by decide),
    if_neg (fun h => hcolumn h.1)]
  rfl

/-- Between its marks a text in print is read as the text, behind what has
been read and the blanks that wait for more. -/
theorem readQuoted_flatMap {t : Text} (ht : t.IsPrintable)
    (hm : 0 < m.column) (text blanks rest : Text) :
    readQuoted false .text { text, blanks } m
        (t.flatMap Json.escapeChar ++ '"' :: rest)
      = some (text ++ blanks ++ t,
          ⟨rest, m.along ((t.flatMap Json.escapeChar).length + 1)⟩) := by
  induction t generalizing text blanks m with
  | nil =>
      rw [List.flatMap_nil, List.nil_append, readQuoted_end hm,
        after_of_printable (by decide), List.append_nil]
      rfl
  | cons c t ih =>
      have hc := ht c (List.mem_cons_self ..)
      have ht' : Text.IsPrintable t :=
        fun d hd => ht d (List.mem_cons_of_mem _ hd)
      have hnext : ∀ n, 0 < (m.along n).column := by
        intro n
        exact Nat.lt_of_lt_of_le hm (Nat.le_add_right _ _)
      rw [List.flatMap_cons, List.append_assoc]
      rcases escapeChar_of_printable hc with ⟨hmark, he⟩ | ⟨hplain, he⟩
      · -- The backslash settles what waits, and the character behind it
        -- is pushed as any other.
        have hpush : (Folding.settle { text, blanks }).push c
            = { text := text ++ blanks ++ [] ++ [c] } := rfl
        rw [he, List.cons_append, List.singleton_append,
          readQuoted_escape hmark hm, @after_of_printable '\\' (by decide),
          after_of_printable hc, hpush, Mark.along_along, ih ht' (hnext 2),
          Mark.along_along]
        have hcount : 1 + 1 + ((t.flatMap Json.escapeChar).length + 1)
            = (['\\', c] ++ t.flatMap Json.escapeChar).length + 1 := by
          simp only [List.length_append, List.length_cons, List.length_nil]
          omega
        rw [hcount]
        simp
      · rw [he, List.singleton_append]
        by_cases hspace : c = ' '
        · subst hspace
          have hblank : Folding.blank { text, blanks } ' '
              = { text, blanks := blanks ++ [' '] } := rfl
          rw [readQuoted_blank, after_of_printable hc, hblank,
            ih ht' (hnext 1), Mark.along_along]
          simp [Nat.add_comm]
        · have hpush : Folding.push { text, blanks } c
              = { text := text ++ blanks ++ [c] } := rfl
          rw [readQuoted_char (by simp [isBlank_of_printable hc, hspace])
              (isBreak_of_printable hc) hm hplain.1 hplain.2,
            after_of_printable hc, hpush, ih ht' (hnext 1),
            Mark.along_along]
          simp [Nat.add_comm]

-- =============================================================== plain

/-- A letter or digit is none of the characters that are neither. -/
theorem ne_of_isAlphanum {c d : Char} (h : c.isAlphanum = true)
    (hd : d.isAlphanum = false) : c ≠ d := by
  rintro rfl
  rw [hd] at h
  cases h

/-- Letters and digits are printable. -/
theorem printable_of_isAlphanum {c : Char} (h : c.isAlphanum = true) :
    0x20 ≤ c.toNat ∧ c.toNat ≤ 0x7E := by
  delta Char.isAlphanum Char.isAlpha Char.isUpper Char.isLower
    Char.isDigit at h
  simp only [Bool.or_eq_true, Bool.and_eq_true, decide_eq_true_eq,
    ge_iff_le, UInt32.le_iff_toNat_le] at h
  have hcodes : 'A'.val.toNat = 65 ∧ 'Z'.val.toNat = 90
      ∧ 'a'.val.toNat = 97 ∧ 'z'.val.toNat = 122
      ∧ '0'.val.toNat = 48 ∧ '9'.val.toNat = 57 := by
    decide
  show 0x20 ≤ c.val.toNat ∧ c.val.toNat ≤ 0x7E
  omega

theorem isBlank_of_isAlphanum {c : Char} (h : c.isAlphanum = true) :
    isBlank c = false := by
  simp [isBlank, ne_of_isAlphanum h]

theorem isFlowIndicator_of_isAlphanum {c : Char}
    (h : c.isAlphanum = true) : isFlowIndicator c = false := by
  simp [isFlowIndicator, ne_of_isAlphanum h]

/-- A document marker starts with its own mark. -/
theorem isTripled_of_ne {mark c : Char} (h : c ≠ mark) (t : Text) :
    isTripled mark (c :: t) = false := by
  match t with
  | [] | [_] => rfl
  | _ :: _ :: _ => simp [isTripled, h]

/-- In a flow collection a plain scalar of letters and digits goes up to
the next sign of the collection. -/
theorem readPlain_word {w : Text} (hw : ∀ c ∈ w, c.isAlphanum = true)
    {c : Char} (hc : c ∈ [',', ']', '\x7d']) (indent : Nat)
    (text rest : Text) :
    readPlain true indent { text } m (w ++ c :: rest)
      = some ({ text := text ++ w }, ⟨c :: rest, m.along w.length⟩) := by
  induction w generalizing text m with
  | nil =>
      -- The sign ends the scalar, and is left to be read.
      have hsign : isBlank c = false ∧ isBreak c = false ∧ c ≠ ':'
          ∧ isFlowIndicator c = true ∧ c ≠ '-' ∧ c ≠ '.' := by
        simp only [List.mem_cons, List.not_mem_nil, or_false] at hc
        rcases hc with rfl | rfl | rfl <;> decide
      obtain ⟨hblank, hbreak, hcolon, hflow, hdash, hpoint⟩ := hsign
      simp [readPlain, hblank, hbreak, hcolon, hflow, Folding.isPending,
        isDocumentMarker, isTripled_of_ne hdash, isTripled_of_ne hpoint,
        Mark.along]
  | cons d w ih =>
      have hd := hw d (List.mem_cons_self ..)
      have hprintable := printable_of_isAlphanum hd
      -- No blank waits, so the letter is all that is added.
      have hpush : Folding.push { text } d
          = { text := text ++ [] ++ [d] } := rfl
      have hstep : readPlain true indent { text } m (d :: (w ++ c :: rest))
          = readPlain true indent (Folding.push { text } d) (m.after d)
              (w ++ c :: rest) := by
        rw [readPlain]
        simp [isBlank_of_isAlphanum hd, isBreak_of_printable hprintable,
          ne_of_isAlphanum hd, isFlowIndicator_of_isAlphanum hd,
          Folding.isPending, isDocumentMarker, isTripled_of_ne]
      rw [List.cons_append, hstep, hpush, after_of_printable hprintable,
        ih fun e he => hw e (List.mem_cons_of_mem _ he), Mark.along_along]
      simp [Nat.add_comm]

end Yaml
end FilterQuery
