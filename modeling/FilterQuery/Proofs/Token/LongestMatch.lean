/-
Cutting at delimiters is longest match. The delimiters are a list of texts
here; which one starts at a place, and which is the longest, is asked of
that list and of nothing else. The first piece of a text is then either a
delimiter that no other one at the same place exceeds, or the run of text
up to the next place where a delimiter starts (`isCut_pieces`).

What is first is enough. The pieces after a piece are the pieces of what
follows (`pieces_suffix`), so each of them is first somewhere.
-/
import FilterQuery.Proofs.Token.Pieces

namespace FilterQuery
namespace Token

-- ========================================================= the delimiters

/-- The delimiters, the longer ones first. -/
def delimiters : List Text :=
  ["\r\n", "!=", ">=", "<=", "&&", "||", " ", "\t", "\n", "\r", "(", ")",
    "'", "\"", "\x60", "´", "=", "<", ">", "!", ",", ";", "+", "*", "/"].map
    String.toList

/-- A delimiter stands at the start of the text. -/
def StartsDelimiter (t : Text) : Prop := ∃ d ∈ delimiters, d <+: t

/-- Of the delimiters at the start of a text this is the longest; `rest`
is what follows it. -/
def IsLongest (d rest : Text) : Prop :=
  d ∈ delimiters ∧ ∀ e ∈ delimiters, e <+: d ++ rest → e.length ≤ d.length

/-- A run of text: no delimiter starts in it, and where it ends one starts
or the whole text ends. -/
def IsRun (t rest : Text) : Prop :=
  t ≠ [] ∧ (∀ u v, t = u ++ v → v ≠ [] → ¬StartsDelimiter (v ++ rest))
    ∧ (rest = [] ∨ StartsDelimiter rest)

/-- The tests on characters, read as one test on a text. -/
def isDelimiterText : Text → Bool
  | [c] => isDelimiter c
  | [c, d] => isDoubleDelimiter c d
  | _ => false

/-- Delimiters are single characters and pairs. -/
theorem mem_delimiters {d : Text} :
    d ∈ delimiters
      ↔ (∃ c, d = [c] ∧ isDelimiter c = true)
        ∨ ∃ c e, d = [c, e] ∧ isDoubleDelimiter c e = true := by
  constructor
  · intro h
    have htests : ∀ d ∈ delimiters, isDelimiterText d = true := by decide
    have hd := htests d h
    unfold isDelimiterText at hd
    split at hd
    · exact Or.inl ⟨_, rfl, hd⟩
    · exact Or.inr ⟨_, _, rfl, hd⟩
    · cases hd
  · rintro (⟨c, rfl, h⟩ | ⟨c, e, rfl, h⟩)
    · have hsingles : ∀ c ∈ ['\'', '"', '\x60', '´', ' ', '\t', '\n', '\r',
          '(', ')', '=', '<', '>', '!', ',', ';', '+', '*', '/'],
          [c] ∈ delimiters := by simp [delimiters]
      exact hsingles c (by simpa [isDelimiter, isQuoteMark, or_assoc] using h)
    · unfold isDoubleDelimiter at h
      split at h <;> first | decide | cases h

theorem startsDelimiter_cons {c : Char} {t : Text} :
    StartsDelimiter (c :: t)
      ↔ isDelimiter c = true
        ∨ ∃ d u, t = d :: u ∧ isDoubleDelimiter c d = true := by
  constructor
  · rintro ⟨d, hd, hprefix⟩
    rcases mem_delimiters.1 hd with ⟨c', rfl, h⟩ | ⟨c', e, rfl, h⟩
    · obtain ⟨rfl, -⟩ := List.cons_prefix_cons.1 hprefix
      exact Or.inl h
    · obtain ⟨rfl, u, rfl⟩ := List.cons_prefix_cons.1 hprefix
      exact Or.inr ⟨e, u, rfl, h⟩
  · rintro (h | ⟨d, u, rfl, h⟩)
    · exact ⟨[c], mem_delimiters.2 (Or.inl ⟨c, rfl, h⟩), by simp⟩
    · exact ⟨[c, d], mem_delimiters.2 (Or.inr ⟨c, d, rfl, h⟩), by simp⟩

theorem IsLongest.startsDelimiter {d rest : Text} (h : IsLongest d rest) :
    StartsDelimiter (d ++ rest) :=
  ⟨d, h.1, List.prefix_append d rest⟩

theorem IsLongest.ne_nil {d rest : Text} (h : IsLongest d rest) :
    d ≠ [] := by
  rcases mem_delimiters.1 h.1 with ⟨c, rfl, -⟩ | ⟨c, e, rfl, -⟩ <;> simp

-- ======================================================== the first piece

private theorem isLongest_double {c d : Char}
    (h : isDoubleDelimiter c d = true) (rest : Text) :
    IsLongest [c, d] rest := by
  refine ⟨mem_delimiters.2 (Or.inr ⟨c, d, rfl, h⟩), fun e he _ => ?_⟩
  rcases mem_delimiters.1 he with ⟨x, rfl, -⟩ | ⟨x, y, rfl, -⟩ <;> simp

/-- A single delimiter is the longest where it is not the first half of a
pair. -/
private theorem isLongest_single {c : Char} {rest : Text}
    (h : isDelimiter c = true)
    (hpair : ∀ d u, rest = d :: u → isDoubleDelimiter c d = false) :
    IsLongest [c] rest := by
  refine ⟨mem_delimiters.2 (Or.inl ⟨c, rfl, h⟩), fun e he hprefix => ?_⟩
  rcases mem_delimiters.1 he with ⟨x, rfl, -⟩ | ⟨x, y, rfl, hxy⟩
  · simp
  · obtain ⟨rfl, u, rfl⟩ := List.cons_prefix_cons.1 hprefix
    rw [hpair y u rfl] at hxy
    cases hxy

/-- A character at which no delimiter starts is a run up to the next place
where one does, or lengthens the run that follows it. -/
theorem IsRun.cons {c : Char} {t rest : Text}
    (hc : ¬StartsDelimiter (c :: (t ++ rest)))
    (h : IsRun t rest ∨ t = [] ∧ (rest = [] ∨ StartsDelimiter rest)) :
    IsRun (c :: t) rest := by
  refine ⟨by simp, fun u v huv hv => ?_, ?_⟩
  · cases u with
    | nil =>
        obtain rfl : c :: t = v := huv
        exact hc
    | cons x u =>
        obtain ⟨-, rfl⟩ := List.cons.inj huv
        rcases h with h | ⟨hnil, -⟩
        · exact h.2.1 u v rfl hv
        · exact absurd (List.append_eq_nil_iff.1 hnil).2 hv
  · rcases h with h | ⟨-, h⟩
    · exact h.2.2
    · exact h

/-- A piece: a run of text, or a delimiter that is the longest at its
place. -/
inductive IsCut : Kind → Text → Text → Prop where
  | run {t rest : Text} (h : IsRun t rest) : IsCut .text t rest
  | delimiter {d rest : Text} (h : IsLongest d rest) :
      IsCut .delimiter d rest

/-- The first piece of a text is cut off by longest match. -/
theorem isCut_pieces {base : Nat} {t : Text} {p : Token} {ps : List Token}
    (h : pieces base t = p :: ps) : IsCut p.kind p.text (content ps) := by
  fun_induction pieces base t generalizing p ps with
  | case1 => cases h
  | case2 base c hc =>
      obtain ⟨rfl, rfl⟩ := List.cons.inj h
      exact .delimiter (isLongest_single hc (by simp))
  | case3 base c hc =>
      obtain ⟨rfl, rfl⟩ := List.cons.inj h
      refine .run (.cons ?_ (Or.inr ⟨rfl, Or.inl rfl⟩))
      rw [startsDelimiter_cons]
      simpa using hc
  | case4 base c d t hcd ih =>
      obtain ⟨rfl, rfl⟩ := List.cons.inj h
      exact .delimiter (isLongest_double hcd _)
  | case5 base c d t hcd hc ih =>
      obtain ⟨rfl, rfl⟩ := List.cons.inj h
      refine .delimiter (isLongest_single hc fun e u he => ?_)
      rw [content_pieces] at he
      obtain ⟨rfl, -⟩ := List.cons.inj he
      simpa using hcd
  | case6 base c d t hcd hc ih =>
      -- No delimiter starts here, so the character is part of a text.
      have hstart : ¬StartsDelimiter (c :: d :: t) := by
        rw [startsDelimiter_cons]
        rintro (hc' | ⟨e, u, he, hce⟩)
        · exact hc hc'
        · obtain ⟨rfl, -⟩ := List.cons.inj he
          exact hcd hce
      rcases consText_cases c base (pieces (base + c.utf8Size) (d :: t))
        with ⟨u, offset, us, hus, hcons⟩ | ⟨hkind, hcons⟩
      · rw [hcons] at h
        obtain ⟨rfl, rfl⟩ := List.cons.inj h
        have hrest : u ++ content us = d :: t := by
          simpa [hus] using content_pieces (base + c.utf8Size) (d :: t)
        cases ih hus with
        | run hrun => exact .run (.cons (by rwa [hrest]) (Or.inl hrun))
      · rw [hcons] at h
        obtain ⟨rfl, rfl⟩ := List.cons.inj h
        refine .run (.cons (by simpa using hstart) (Or.inr ⟨rfl, Or.inr ?_⟩))
        -- What follows is no text, so a delimiter starts there.
        cases hps : pieces (base + c.utf8Size) (d :: t) with
        | nil =>
            have := content_pieces (base + c.utf8Size) (d :: t)
            rw [hps] at this
            cases this
        | cons q qs =>
            obtain ⟨kind, u, offset⟩ := q
            cases ih hps with
            | run => exact absurd rfl (hkind _ _ hps)
            | delimiter hlongest => exact hlongest.startsDelimiter

end Token
end FilterQuery
