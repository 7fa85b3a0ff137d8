/-
How deep the reader goes. A group is read by a further call of the reader on
the tokens of its contents. `ofTokensWithin` is that recursion with a limit
to how many calls may be within one another and an arbitrary result where
the limit is reached, so that it says no more than what a call makes of its
tokens. With enough levels it is `ofTokens`, whatever stands at the limit:
the limit is not reached, and no list of tokens keeps the reader going
forever.

How many levels are enough is told by the parentheses. A group among the
tokens of a text starts with a parenthesis, which is outside quotes in the
text and not in the contents of the group, so `openings` goes down with
every level (`openings_interior_lt`). A group in a list put together by hand
may lack its parenthesis, and is good for one level more. The depth of the
nodes cannot exceed the number of levels (`depth_lt_of_ofTokensWithin`).
-/
import FilterQuery.Proofs.Grammar.Filling
import FilterQuery.Proofs.Refusal
import FilterQuery.Proofs.Token.Unquoted

namespace FilterQuery

-- ==================================================== parentheses of a text

/-- The number of opening parentheses outside quotes in a text that starts
at an offset. -/
def openings (base : Nat) (t : Text) : Nat :=
  (unquoted none base t).1.countP (·.2 == .opening)

private theorem countP_unquotedStep_le (st : OpenQuote) (pos : Nat)
    (c : Char) :
    (unquotedStep st pos c).1.countP (·.2 == .opening)
      ≤ if c = '(' then 1 else 0 := by
  unfold unquotedStep
  split
  · exact Nat.zero_le _
  · split
    · exact Nat.zero_le _
    · unfold parenOf?
      split
      · simp
      · split <;> simp

private theorem openings_append (base : Nat) (t u : Text) :
    openings base (t ++ u) = openings base t
      + (unquoted (unquoted none base t).2 (base + t.byteSize) u).1.countP
          (·.2 == .opening) := by
  unfold openings
  rw [unquoted_append, List.countP_append]

/-- Outside quotes there are no more of them than in all. -/
theorem openings_le_count (base : Nat) (t : Text) :
    openings base t ≤ t.count '(' := by
  suffices h : ∀ st pos, (unquoted st pos t).1.countP (·.2 == .opening)
      ≤ t.count '(' from h none base
  induction t with
  | nil => exact fun st pos => Nat.le_refl 0
  | cons c t ih =>
      intro st pos
      have hstep := countP_unquotedStep_le st pos c
      have hrest := ih (unquotedStep st pos c).2 (pos + c.utf8Size)
      rw [unquoted_cons, List.countP_append, List.count_cons]
      simp only [beq_iff_eq]
      omega

private theorem openings_le_of_prefix {t u : Text} (h : t <+: u) (base : Nat) :
    openings base t ≤ openings base u := by
  obtain ⟨v, rfl⟩ := h
  rw [openings_append]
  exact Nat.le_add_right ..

-- ======================================================== groups of a text

namespace Token

variable {mode : Mode} {base : Nat} {text : Text} {gs : List Token}

/-- The contents of a group have fewer opening parentheses outside quotes
than the text: the parenthesis that the group starts with is not in them. -/
theorem openings_interior_lt (h : tokenizeAt mode base text = .ok gs)
    {g : Token} (hg : g ∈ gs) (hkind : g.kind = .group) :
    openings (g.offset + 1) g.interior < openings base text := by
  obtain ⟨ts, last, as, o, us, bs, hlexed, hsplit, ho, rfl⟩ :=
    exists_grouped_of_mem h hg hkind
  have hmarked := (isUngrouped_of_mem_lexed hlexed).2
  have hparen := paren?_eq_opening.2 ho
  obtain ⟨zs, -, rfl⟩ := hmarked.split hparen hsplit
  -- Up to the parenthesis nothing is left open, and behind it the contents
  -- are read as they are by themselves.
  have hbefore : lexed base (content (as ++ [o])) = (as ++ [o], none) := by
    have hsplit' : as ++ o :: zs = [] ++ (as ++ [o]) ++ zs := by simp
    rw [hsplit'] at hlexed
    exact lexed_infix hlexed
  have hoffset : base + (content (as ++ [o])).byteSize = o.offset + 1 := by
    have htiles := tiles_lexed hlexed
    rw [List.append_assoc, List.cons_append] at htiles
    rw [htiles.offset_eq]
    simp [text_of_isOpening ho, Char.utf8Size, Nat.add_assoc]
  have hwhole : text = content (as ++ [o]) ++ (content us ++ content bs) := by
    rw [← content_lexed hlexed, ← content_append, hsplit]
    simp
  have hbegin : 1 ≤ openings base (content (as ++ [o])) := by
    unfold openings
    rw [unquoted_lexed hbefore, parens_append, parens_singleton, hparen]
    simp
  have hinterior : (grouped o us).interior <+: content us ++ content bs := by
    rw [interior_grouped ho]
    exact (Text.dropTrailing_prefix _ _).trans (List.prefix_append _ _)
  calc openings (o.offset + 1) (grouped o us).interior
      ≤ openings (o.offset + 1) (content us ++ content bs) :=
        openings_le_of_prefix hinterior _
    _ < openings base (content (as ++ [o]))
          + openings (o.offset + 1) (content us ++ content bs) :=
        Nat.lt_add_of_pos_left hbegin
    _ = openings base text := by
        rw [hwhole, openings_append base, unquoted_lexed hbefore, hoffset]
        rfl

end Token

-- ======================================================== depth of the nodes

namespace Node

mutual

/-- The nesting depth of a node. -/
def depthInside : Node → Nat
  | .group children => depth children + 1
  | .column _ | .operator _ | .value _ => 0

/-- The nesting depth of nodes: how many groups are within one another. -/
def depth : List Node → Nat
  | [] => 0
  | n :: ns => max (depthInside n) (depth ns)

end

end Node

namespace Grammar

variable {contents : Token → Except QueryError (List Node)}

private theorem depthInside_of_fill {slot next : Slot} {t : Token} {n : Node}
    (hkind : t.kind ≠ .group) (h : slot.fill contents t = .ok (n, next)) :
    n.depthInside = 0 := by
  cases hr : Reading.ofToken t with
  | group => exact absurd hr (reading_ne_group hkind)
  | word =>
      rcases (fill_word_eq_ok hr).1 h with ⟨-, rfl, -⟩ | ⟨-, rfl, -⟩
      · rfl
      · rfl
  | operator op =>
      obtain ⟨rfl, -⟩ := (fill_operator_eq_ok hr).1 h
      rfl

/-- Nodes are deeper than the contents of their groups by one. -/
theorem depth_of_fillFrom {k : Nat} {slot : Slot} {ts : List Token}
    {ns : List Node} (hcontents : ∀ t ∈ ts, t.kind = .group → ∀ children,
      contents t = .ok children → Node.depth children < k)
    (h : fillFrom contents slot ts = .ok ns) : Node.depth ns ≤ k := by
  induction ts generalizing slot ns with
  | nil =>
      obtain ⟨-, rfl⟩ := fillFrom_nil_eq_ok.1 h
      exact Nat.zero_le k
  | cons t ts ih =>
      obtain ⟨n, next, rest, hfill, hrest, rfl⟩ := fillFrom_cons_eq_ok.1 h
      have hns := ih (fun u hu => hcontents u (List.mem_cons_of_mem _ hu))
        hrest
      refine Nat.max_le.2 ⟨?_, hns⟩
      by_cases hkind : t.kind = .group
      · obtain ⟨-, -, children, hc, rfl⟩ := (fill_group_eq_ok hkind).1 hfill
        exact hcontents t (List.mem_cons_self ..) hkind children hc
      · rw [depthInside_of_fill hkind hfill]
        exact Nat.zero_le k

end Grammar

-- =============================================================== the levels

namespace Node

variable {mode : Mode} {stuck : Except QueryError (List Node)}

/-- The nodes of tokens, with so many calls of the reader within one another
at most. One more would have the result `stuck`. -/
def ofTokensWithin (mode : Mode) (stuck : Except QueryError (List Node)) :
    Nat → List Token → Except QueryError (List Node)
  | 0, _ => stuck
  | levels + 1, ts =>
      Grammar.read
        (fun t => Token.tokenizeAt mode (t.offset + 1) t.interior
          >>= ofTokensWithin mode stuck levels)
        ts

/-- Every level of groups is read on a level of its own. -/
theorem depth_lt_of_ofTokensWithin {e : QueryError} {levels : Nat}
    {ts : List Token} {ns : List Node}
    (h : ofTokensWithin mode (.error e) levels ts = .ok ns) :
    depth ns < levels := by
  induction levels generalizing ts ns with
  | zero => cases h
  | succ levels ih =>
      refine Nat.lt_succ_of_le
        (Grammar.depth_of_fillFrom (fun t _ _ children hc => ?_) h)
      obtain ⟨us, -, hus⟩ := bind_eq_ok_iff.1 hc
      exact ih hus

/-- A level is not missed where it is not for the contents of a group. -/
theorem ofTokensWithin_succ_eq {levels : Nat} {ts : List Token}
    (h : ∀ t ∈ ts, t.kind = .group → ∀ us,
      Token.tokenizeAt mode (t.offset + 1) t.interior = .ok us →
        ofTokensWithin mode stuck levels us = ofTokens mode us) :
    ofTokensWithin mode stuck (levels + 1) ts = ofTokens mode ts := by
  refine Grammar.fillFrom_congr (fun t ht hkind => ?_) _
  rw [parseAt_eq]
  cases hus : Token.tokenizeAt mode (t.offset + 1) t.interior with
  | error e => rfl
  | ok us => exact h t (List.mem_filter.1 ht).1 hkind us hus

/-- For the tokens of a text one level more than it has opening parentheses
outside quotes is enough. -/
theorem ofTokensWithin_eq_of_openings {base : Nat} {text : Text}
    {gs : List Token} {levels : Nat}
    (hgs : Token.tokenizeAt mode base text = .ok gs)
    (hlevels : openings base text < levels) :
    ofTokensWithin mode stuck levels gs = ofTokens mode gs := by
  induction base, text using contents_induction mode
    generalizing gs levels with
  | step base text ih =>
      obtain ⟨levels, rfl⟩ := Nat.exists_eq_add_one_of_ne_zero
        (Nat.ne_zero_of_lt hlevels)
      refine ofTokensWithin_succ_eq fun g hg hkind us hus => ?_
      have hlt := Token.openings_interior_lt hgs hg hkind
      exact ih gs hgs g hg hkind hus (by omega)

/-- The largest number of opening parentheses in the text of a group. -/
def mostOpenings : List Token → Nat
  | [] => 0
  | t :: ts =>
      if t.kind = .group then max (t.text.count '(') (mostOpenings ts)
      else mostOpenings ts

private theorem count_le_mostOpenings {ts : List Token} :
    ∀ t ∈ ts, t.kind = .group → t.text.count '(' ≤ mostOpenings ts := by
  induction ts with
  | nil => exact fun t ht => absurd ht List.not_mem_nil
  | cons u ts ih =>
      intro t ht hkind
      unfold mostOpenings
      rcases List.mem_cons.1 ht with rfl | ht
      · rw [if_pos hkind]
        exact Nat.le_max_left ..
      · have hle := ih t ht hkind
        split
        · exact Nat.le_trans hle (Nat.le_max_right ..)
        · exact hle

/-- For tokens put together by hand two levels more are enough. -/
theorem ofTokensWithin_eq_of_mostOpenings {ts : List Token} {levels : Nat}
    (hlevels : mostOpenings ts + 1 < levels) :
    ofTokensWithin mode stuck levels ts = ofTokens mode ts := by
  obtain ⟨levels, rfl⟩ := Nat.exists_eq_add_one_of_ne_zero
    (Nat.ne_zero_of_lt hlevels)
  refine ofTokensWithin_succ_eq fun t ht hkind us hus => ?_
  refine ofTokensWithin_eq_of_openings hus ?_
  calc openings (t.offset + 1) t.interior
      ≤ t.interior.count '(' := openings_le_count _ _
    _ ≤ t.text.count '(' := t.interior_sublist.count_le _
    _ ≤ mostOpenings ts := count_le_mostOpenings t ht hkind
    _ < levels := by omega

-- =============================================================== the result

/-- Whatever tokens it is given, the reader comes to an end: with two levels
more than the most opening parentheses that a group among them has, the
limit is not reached. For every group that is met further down starts with a
parenthesis and has contents that are shorter than the text it was cut from.
So the nodes are at most one deeper than that number, and those of a query
no deeper than it has opening parentheses outside quotes. -/
theorem ofTokens_bounded (mode : Mode) (ts : List Token) :
    (∀ stuck levels, mostOpenings ts + 1 < levels →
        ofTokensWithin mode stuck levels ts = ofTokens mode ts)
      ∧ (∀ base text gs, Token.tokenizeAt mode base text = .ok gs →
        ∀ g ∈ gs, g.kind = .group → g.text.head? = some '('
          ∧ g.interior.length < g.text.length
          ∧ g.text.length ≤ text.length)
      ∧ (∀ ns, ofTokens mode ts = .ok ns → depth ns ≤ 1 + mostOpenings ts)
      ∧ ∀ query, Token.tokenize mode query = .ok ts →
        (∀ stuck levels, openings 0 query < levels →
          ofTokensWithin mode stuck levels ts = ofTokens mode ts)
        ∧ ∀ ns, ofTokens mode ts = .ok ns → depth ns ≤ openings 0 query := by
  refine ⟨fun stuck levels => ofTokensWithin_eq_of_mostOpenings,
    fun base text gs hgs g hg => Token.starts_of_mem_group hgs hg,
    fun ns hns => ?_, fun query hquery => ⟨fun stuck levels =>
      ofTokensWithin_eq_of_openings hquery, fun ns hns => ?_⟩⟩
  · have hwithin := @ofTokensWithin_eq_of_mostOpenings mode
      (.error (.incomplete .value)) ts _ (Nat.lt_succ_self _)
    have hlt := depth_lt_of_ofTokensWithin (hwithin.trans hns)
    omega
  · have hwithin := @ofTokensWithin_eq_of_openings mode
      (.error (.incomplete .value)) 0 query ts _ hquery (Nat.lt_succ_self _)
    exact Nat.le_of_lt_succ (depth_lt_of_ofTokensWithin (hwithin.trans hns))

/-- A group without its own parentheses, with two that are left open, and
its text as a query: the parenthesis in quotes counts for the one only. -/
theorem ofTokens_bounded_open :
    let text : Text := "a = '(' or ((b ISNULL".toList
    let g : Token := ⟨.group, "((b ISNULL".toList, 11⟩
    let ns : List Node :=
      [.column ['a'], .operator .eq, .value "'('".toList, .operator .or,
        .group [.group [.column ['b'], .operator .isNull]]]
    (ofTokens .lenient [⟨.group, text, 7⟩] = .ok [.group ns]
        ∧ depth [.group ns] ≤ 1 + mostOpenings [⟨.group, text, 7⟩])
      ∧ ∃ gs, Token.tokenize .lenient text = .ok gs ∧ g ∈ gs
        ∧ g.interior.length < g.text.length ∧ g.text.length ≤ text.length
        ∧ ofTokens .lenient gs = .ok ns ∧ depth ns ≤ openings 0 text
        ∧ openings 0 text = 2 := by
  intro text g ns
  constructor
  · obtain ⟨hwithin, -, hdepth, -⟩ :=
      ofTokens_bounded .lenient [⟨.group, text, 7⟩]
    have hns : ofTokens .lenient [⟨.group, text, 7⟩] = .ok [.group ns] :=
      (hwithin (.ok []) 5 (by decide)).symm.trans rfl
    exact ⟨hns, hdepth _ hns⟩
  · obtain ⟨gs, hgs, hg⟩ : ∃ gs, Token.tokenize .lenient text = .ok gs
        ∧ gs.getLast? = some g := ⟨_, rfl, rfl⟩
    have hmem : g ∈ gs := List.mem_of_getLast? hg
    obtain ⟨-, hgroups, -, hquery⟩ := ofTokens_bounded .lenient gs
    obtain ⟨-, hinterior, htext⟩ := hgroups 0 text gs hgs g hmem rfl
    obtain ⟨hwithin, hdepth⟩ := hquery text hgs
    have hns : ofTokens .lenient gs = .ok ns := by
      rw [← hwithin (.ok []) 3 (by decide)]
      obtain rfl := Except.ok.inj hgs
      rfl
    exact ⟨gs, hgs, hmem, hinterior, htext, hns, hdepth ns hns, by decide⟩

end Node
end FilterQuery
