/-
Single arguments as a grammar. An option is written long or as letters after
one dash; the value of one that takes a value is the next argument, or is
attached, with an equals sign or, after a letter, without one. Such an
argument may hold several options, and `Written` tells them in order, with
the setting whose value is still to come.

`readOption_eq_ok_iff` says that an argument is read just when it is written
so, and that its options are then gathered as they stand. To look at the
value that is pending comes first, whatever the option: one step settles it
(`readOption_congr`), and the grammar is met by settled settings alone.
-/
import FilterQuery.Proofs.Invocation.Given

namespace FilterQuery
namespace Invocation

-- ============================================================== grammar

/-- The long name of a setting. -/
def Setting.name : Setting → Text
  | schema => "schema".toList
  | qualifier => "prefix".toList
  | dialect => "dialect".toList

/-- The letter of a setting. -/
def Setting.letter : Setting → Char
  | schema => 's'
  | qualifier => 'p'
  | dialect => 'd'

/-- Not in the form of an option: such an argument begins with no dash, or
is nothing but one. -/
def IsBare (arg : Text) : Prop := arg.head? ≠ some '-' ∨ arg = ['-']

instance (arg : Text) : Decidable (IsBare arg) :=
  inferInstanceAs (Decidable (_ ∨ _))

/-- Letters after one dash: the options that they give, and the setting
whose value is to be the next argument. -/
inductive Letters : Text → List Given → Option Setting → Prop where
  | nil : Letters [] [] none
  | verbose {t gs wanting} :
      Letters t gs wanting → Letters ('v' :: t) (.verbose :: gs) wanting
  | separate (s : Setting) : Letters [s.letter] [] (some s)
  | attached (s : Setting) {value : Text} :
      value ≠ [] → value.head? ≠ some '=' →
        Letters (s.letter :: value) [.setting s value] none
  | equals (s : Setting) (value : Text) :
      Letters (s.letter :: '=' :: value) [.setting s value] none

/-- An argument before the command, in the same way. -/
inductive Written : Text → List Given → Option Setting → Prop where
  | separate (s : Setting) : Written ('-' :: '-' :: s.name) [] (some s)
  | equals (s : Setting) (value : Text) :
      Written ('-' :: '-' :: s.name ++ '=' :: value) [.setting s value] none
  | lenient : Written "--lenient".toList [.lenient] none
  | verbose : Written "--verbose".toList [.verbose] none
  | letters {t gs wanting} :
      Letters t gs wanting → t ≠ [] → Written ('-' :: t) gs wanting

/-- What is written as an option is in the form of one. -/
theorem not_isBare_of_written {arg : Text} {gs : List Given}
    {wanting : Option Setting} (h : Written arg gs wanting) :
    ¬ IsBare arg := by
  cases h with
  | letters _ ht => simpa [IsBare] using ht
  | _ => simp [IsBare]

-- =============================================================== shapes

/-- The reader takes for a word what is not in the form of an option. -/
theorem ofText_eq_word_iff {arg : Text} :
    Shape.ofText arg = .word ↔ IsBare arg := by
  unfold Shape.ofText IsBare
  split
  · simp
  · simp
  · simp
  · next _ _ h =>
    rcases arg with - | ⟨c, - | ⟨d, t⟩⟩
    · simp
    · by_cases hc : c = '-' <;> simp [hc]
    · -- two characters or more: with a dash first they have another shape
      have hc : c ≠ '-' := fun hc => h d t (hc ▸ rfl)
      simp [hc]

/-- Only the two dashes by themselves end the options. -/
theorem ofText_eq_separator_iff {arg : Text} :
    Shape.ofText arg = .separator ↔ arg = ['-', '-'] := by
  constructor
  · intro h
    unfold Shape.ofText at h
    split at h
    · rfl
    all_goals cases h
  · rintro rfl
    rfl

/-- Letters stand behind one dash, and there is at least one. -/
private theorem eq_of_ofText_letters {arg t : Text}
    (h : Shape.ofText arg = .letters t) : arg = '-' :: t ∧ t ≠ [] := by
  unfold Shape.ofText at h
  split at h
  · cases h
  · cases h
  · cases h
    simp
  · cases h

/-- Nothing is lost where a long name is split from its value. -/
private theorem eq_append_of_splitLong {t name : Text} {attached : Option Text}
    (h : splitLong t = (name, attached)) :
    t = name ++ (attached.map ('=' :: ·)).getD [] := by
  unfold splitLong at h
  have htext := List.takeWhile_append_dropWhile (p := (· != '=')) (l := t)
  split at h
  · cases h
    simp
  · next c value hdrop =>
    have hc : c = '=' := by
      simpa [hdrop] using List.head?_dropWhile_not (· != '=') t
    cases h
    rw [hdrop, hc] at htext
    exact htext.symm

/-- A long option stands behind two dashes, and its value behind the equals
sign. -/
private theorem eq_of_ofText_long {arg name : Text} {attached : Option Text}
    (h : Shape.ofText arg = .long name attached) :
    arg = '-' :: '-' :: name ++ (attached.map ('=' :: ·)).getD [] := by
  unfold Shape.ofText at h
  split at h
  · cases h
  · next t _ =>
    cases h
    rw [List.cons_append, List.cons_append, ← eq_append_of_splitLong rfl]
  · cases h
  · cases h

/-- Letters that give options are told from a long name: none of them is a
dash. -/
private theorem ofText_of_letters {t : Text} {gs : List Given}
    {wanting : Option Setting} (h : Letters t gs wanting) (ht : t ≠ []) :
    Shape.ofText ('-' :: t) = .letters t := by
  cases h with
  | nil => exact absurd rfl ht
  | verbose => rfl
  | separate s => cases s <;> rfl
  | attached s => cases s <;> rfl
  | equals s => cases s <;> rfl

-- ================================================================ names

/-- A letter that is known is that of a setting, the one for more detail, or
asks for something else than an invocation. -/
private theorem letter_of_lookup {c : Char} {flag : Flag}
    (h : letters.lookup c = some flag) :
    (∃ s : Setting, c = s.letter ∧ flag = .setting s)
      ∨ c = 'v' ∧ flag = .verbose ∨ flag = .help ∨ flag = .version := by
  have hmem := Lists.mem_of_lookup h
  simp only [letters, List.mem_cons, Prod.mk.injEq, List.not_mem_nil,
    or_false] at hmem
  rcases hmem with ⟨rfl, rfl⟩ | ⟨rfl, rfl⟩ | ⟨rfl, rfl⟩ | ⟨rfl, rfl⟩
    | ⟨-, rfl⟩ | ⟨-, rfl⟩
  · exact Or.inl ⟨.schema, rfl, rfl⟩
  · exact Or.inl ⟨.qualifier, rfl, rfl⟩
  · exact Or.inl ⟨.dialect, rfl, rfl⟩
  all_goals simp

/-- A long name that is known is that of a setting or of a flag, or asks for
something else than an invocation. -/
private theorem name_of_lookup {name : Text} {flag : Flag}
    (h : longNames.lookup name = some flag) :
    (∃ s : Setting, name = s.name ∧ flag = .setting s)
      ∨ name = "lenient".toList ∧ flag = .lenient
      ∨ name = "verbose".toList ∧ flag = .verbose
      ∨ flag = .help ∨ flag = .version := by
  have hmem := Lists.mem_of_lookup h
  simp only [longNames, List.mem_cons, Prod.mk.injEq, List.not_mem_nil,
    or_false] at hmem
  rcases hmem with ⟨rfl, rfl⟩ | ⟨rfl, rfl⟩ | ⟨rfl, rfl⟩ | ⟨rfl, rfl⟩
    | ⟨rfl, rfl⟩ | ⟨-, rfl⟩ | ⟨-, rfl⟩
  · exact Or.inl ⟨.schema, rfl, rfl⟩
  · exact Or.inl ⟨.qualifier, rfl, rfl⟩
  · exact Or.inl ⟨.dialect, rfl, rfl⟩
  all_goals simp

-- ==================================================== from what is meant

namespace Settings

/-- Reads an argument before the command. -/
def readOption (o : Settings) (arg : Text) :
    Except Refusal (Settings × Option Setting) :=
  match Shape.ofText arg with
  | .long name attached => o.readLong name attached
  | .letters t => o.readLetters t
  | _ => .error .usage

private theorem addAll_singleton (o : Settings) (g : Given) :
    o.addAll [g] = o.add g := by
  rw [addAll_cons]
  cases o.add g <;> rfl

/-- Where nothing waits, a value that is attached is the value that is
given. -/
private theorem IsSettled.attach_eq {o : Settings} (h : o.IsSettled)
    (s : Setting) (value : Text) :
    o.attach s value = o.addAll [.setting s value] := by
  rw [addAll_singleton]
  unfold attach
  rw [h.settle_eq]
  rfl

/-- With the letter of a setting at the end, the value is still to come. -/
private theorem readLetters_separate (o : Settings) (s : Setting) :
    o.readLetters [s.letter] = (·, some s) <$> o.settle := by
  cases s <;> rfl

/-- What follows the letter of a setting is its value, without the equals sign
if there is one. -/
private theorem readLetters_attached (o : Settings) (s : Setting) {t : Text}
    (ht : t ≠ []) :
    o.readLetters (s.letter :: t)
      = (·, none) <$> o.attach s (Text.dropLeading '=' t) := by
  obtain ⟨c, t, rfl⟩ := List.exists_cons_of_ne_nil ht
  cases s <;> rfl

/-- The letter for more detail leaves the letters after it to be read. -/
private theorem readLetters_verbose (o : Settings) (t : Text) :
    o.readLetters ('v' :: t) = o.add .verbose >>= (·.readLetters t) := rfl

/-- Letters are read as the options that they give. -/
theorem IsSettled.readLetters_eq {o : Settings} (ho : o.IsSettled)
    {t : Text} {gs : List Given} {wanting : Option Setting}
    (h : Letters t gs wanting) :
    o.readLetters t = (·, wanting) <$> o.addAll gs := by
  induction h generalizing o with
  | nil => rfl
  | verbose _ ih =>
      rw [readLetters_verbose, addAll_cons]
      cases hadd : o.add .verbose with
      | error e => rfl
      | ok o₁ => exact ih (ho.of_add hadd)
  | separate s => rw [readLetters_separate, ho.settle_eq, addAll_nil]
  | @attached s value hne heq =>
      have hdrop : Text.dropLeading '=' value = value := by
        obtain ⟨c, t, rfl⟩ := List.exists_cons_of_ne_nil hne
        have hc : c ≠ '=' := by simpa using heq
        rw [Text.dropLeading, if_neg hc]
      rw [readLetters_attached o s hne, ho.attach_eq, hdrop]
  | equals s value =>
      rw [readLetters_attached o s (List.cons_ne_nil _ _), ho.attach_eq,
        Text.dropLeading, if_pos rfl]

/-- What is written is read as the options that are meant. -/
theorem IsSettled.readOption_eq {o : Settings} (ho : o.IsSettled)
    {arg : Text} {gs : List Given} {wanting : Option Setting}
    (h : Written arg gs wanting) :
    o.readOption arg = (·, wanting) <$> o.addAll gs := by
  cases h with
  | separate s =>
      have hread : o.readOption ('-' :: '-' :: s.name)
          = (·, some s) <$> o.settle := by
        cases s <;> rfl
      rw [hread, ho.settle_eq, addAll_nil]
  | equals s value =>
      have hread : o.readOption ('-' :: '-' :: s.name ++ '=' :: value)
          = (·, none) <$> o.attach s value := by
        cases s <;> rfl
      rw [hread, ho.attach_eq]
  | lenient =>
      rw [addAll_singleton]
      rfl
  | verbose =>
      rw [addAll_singleton]
      rfl
  | letters hletters hne =>
      unfold readOption
      rw [ofText_of_letters hletters hne]
      exact ho.readLetters_eq hletters

-- =================================================== from what is written

/-- What asks for something else than an invocation ends the reading. -/
private theorem raise_ne_ok {flag : Flag} (h : flag = .help ∨ flag = .version)
    (o o' : Settings) : o.raise flag ≠ .ok o' := by
  intro hraise
  unfold raise at hraise
  obtain ⟨o₁, -, h₁⟩ := bind_eq_ok_iff.1 hraise
  rcases h with rfl | rfl <;> cases h₁

/-- The letter of a flag raises it, and the letters after it are read then. -/
private theorem readLetters_flag (o : Settings) {c : Char} {flag : Flag}
    (hc : letters.lookup c = some flag) (hflag : ∀ s, flag ≠ .setting s)
    (t : Text) :
    o.readLetters (c :: t) = o.raise flag >>= (·.readLetters t) := by
  rw [readLetters, hc]
  cases flag with
  | setting s => exact absurd rfl (hflag s)
  | _ => rfl

/-- Letters that are read are written as the grammar has them. -/
theorem letters_of_readLetters {o o' : Settings} {t : Text}
    {wanting : Option Setting} (h : o.readLetters t = .ok (o', wanting)) :
    ∃ gs, Letters t gs wanting := by
  induction t generalizing o with
  | nil =>
      cases h
      exact ⟨_, .nil⟩
  | cons c t ih =>
      cases hc : letters.lookup c with
      | none => simp [readLetters, hc] at h
      | some flag =>
          rcases letter_of_lookup hc with ⟨s, rfl, rfl⟩ | ⟨rfl, rfl⟩ | hother
          · -- A setting takes the rest of the argument, or the next one.
            rcases t with - | ⟨d, t⟩
            · rw [readLetters_separate] at h
              obtain ⟨o₁, -, h₁⟩ := map_eq_ok_iff.1 h
              cases h₁
              exact ⟨_, .separate s⟩
            · rw [readLetters_attached _ _ (List.cons_ne_nil _ _)] at h
              obtain ⟨o₁, -, h₁⟩ := map_eq_ok_iff.1 h
              cases h₁
              by_cases hd : d = '='
              · subst hd
                exact ⟨_, .equals s t⟩
              · have hhead : (d :: t).head? ≠ some '=' := by simpa using hd
                exact ⟨_, .attached s (List.cons_ne_nil _ _) hhead⟩
          · rw [readLetters_verbose] at h
            obtain ⟨o₁, -, h₁⟩ := bind_eq_ok_iff.1 h
            obtain ⟨gs, hgs⟩ := ih h₁
            exact ⟨_, .verbose hgs⟩
          · have hflag : ∀ s, flag ≠ .setting s := by
              rcases hother with rfl | rfl <;> simp
            rw [readLetters_flag o hc hflag] at h
            obtain ⟨o₁, h₁, -⟩ := bind_eq_ok_iff.1 h
            -- The other letters end the reading.
            exact absurd h₁ (raise_ne_ok hother _ _)

/-- The long name of a flag takes no value, wants none, and raises the
flag. -/
private theorem of_readLong_flag {o o' : Settings} {name : Text} {flag : Flag}
    {attached : Option Text} {wanting : Option Setting}
    (hname : longNames.lookup name = some flag)
    (hflag : ∀ s, flag ≠ .setting s)
    (h : o.readLong name attached = .ok (o', wanting)) :
    attached = none ∧ wanting = none ∧ o.raise flag = .ok o' := by
  unfold readLong at h
  rw [hname] at h
  cases flag with
  | setting s => exact absurd rfl (hflag s)
  | _ =>
      cases attached with
      | some value => cases h
      | none =>
          obtain ⟨o₁, h₁, heq⟩ := map_eq_ok_iff.1 h
          cases heq
          exact ⟨rfl, rfl, h₁⟩

/-- A long option that is read is written as the grammar has it. -/
private theorem written_of_readLong {o o' : Settings} {name : Text}
    {attached : Option Text} {wanting : Option Setting}
    (h : o.readLong name attached = .ok (o', wanting)) :
    ∃ gs, Written
      ('-' :: '-' :: name ++ (attached.map ('=' :: ·)).getD []) gs
      wanting := by
  cases hname : longNames.lookup name with
  | none => simp [readLong, hname] at h
  | some flag =>
      rcases name_of_lookup hname with
        ⟨s, rfl, rfl⟩ | ⟨rfl, rfl⟩ | ⟨rfl, rfl⟩ | hother
      · unfold readLong at h
        rw [hname] at h
        cases attached with
        | none =>
            obtain ⟨o₁, -, h₁⟩ := map_eq_ok_iff.1 h
            cases h₁
            exact ⟨_, by simpa using .separate s⟩
        | some value =>
            obtain ⟨o₁, -, h₁⟩ := map_eq_ok_iff.1 h
            cases h₁
            exact ⟨_, .equals s value⟩
      · obtain ⟨rfl, rfl, -⟩ := of_readLong_flag hname (by simp) h
        exact ⟨_, .lenient⟩
      · obtain ⟨rfl, rfl, -⟩ := of_readLong_flag hname (by simp) h
        exact ⟨_, .verbose⟩
      · have hflag : ∀ s, flag ≠ .setting s := by
          rcases hother with rfl | rfl <;> simp
        obtain ⟨-, -, hraise⟩ := of_readLong_flag hname hflag h
        exact absurd hraise (raise_ne_ok hother _ _)

/-- An argument that is read as an option is written as the grammar has it. -/
private theorem written_of_readOption {o o' : Settings} {arg : Text}
    {wanting : Option Setting} (h : o.readOption arg = .ok (o', wanting)) :
    ∃ gs, Written arg gs wanting := by
  unfold readOption at h
  cases hshape : Shape.ofText arg with
  | separator => simp [hshape] at h
  | word => simp [hshape] at h
  | long name attached =>
      rw [hshape] at h
      rw [eq_of_ofText_long hshape]
      exact written_of_readLong h
  | letters t =>
      rw [hshape] at h
      obtain ⟨rfl, ht⟩ := eq_of_ofText_letters hshape
      obtain ⟨gs, hgs⟩ := letters_of_readLetters h
      exact ⟨gs, .letters hgs ht⟩

-- =============================================================== pending

/-- Once the value that was pending has been looked at, nothing waits. -/
theorem isSettled_of_settle {o o₁ : Settings} (h : o.settle = .ok o₁) :
    o₁.IsSettled := by
  unfold settle at h
  cases hpending : o.pending with
  | none =>
      rw [hpending] at h
      exact Except.ok.inj h ▸ hpending
  | some awaited =>
      obtain ⟨s, value⟩ := awaited
      rw [hpending] at h
      have hbefore : IsSettled { o with pending := none } := rfl
      exact @IsSettled.of_add _ o₁ (.setting s value) hbefore h

private theorem raise_congr {o o₁ : Settings} (h : o.settle = o₁.settle)
    (flag : Flag) : o.raise flag = o₁.raise flag := by
  unfold raise
  rw [h]

private theorem attach_congr {o o₁ : Settings} (h : o.settle = o₁.settle)
    (s : Setting) (t : Text) : o.attach s t = o₁.attach s t := by
  unfold attach
  rw [h]

/-- Whatever an argument is, a value that is pending is looked at first. -/
private theorem readOption_congr {o o₁ : Settings} (h : o.settle = o₁.settle)
    (arg : Text) : o.readOption arg = o₁.readOption arg := by
  unfold readOption
  cases hshape : Shape.ofText arg with
  | separator => rfl
  | word => rfl
  | long name attached =>
      simp only [readLong, raise_congr h, attach_congr h, h]
  | letters t =>
      -- There is a first letter, and reading it settles what is pending.
      obtain ⟨c, t, rfl⟩ :=
        List.exists_cons_of_ne_nil (eq_of_ofText_letters hshape).2
      simp only [readLetters, raise_congr h, attach_congr h, h]

/-- Nothing is read if the value that is pending is refused. -/
private theorem exists_settle_of_readOption {o : Settings} {arg : Text}
    {r : Settings × Option Setting} (h : o.readOption arg = .ok r) :
    ∃ o₁, o.settle = .ok o₁ := by
  cases hsettle : o.settle with
  | ok o₁ => exact ⟨o₁, rfl⟩
  | error e =>
      -- Whatever the option is, the pending value is settled first.
      have hraise : ∀ flag, o.raise flag = .error e := by
        intro flag
        unfold raise
        rw [hsettle]
        rfl
      have hattach : ∀ s t, o.attach s t = .error e := by
        intro s t
        unfold attach
        rw [hsettle]
        rfl
      unfold readOption at h
      cases hshape : Shape.ofText arg with
      | separator => simp [hshape] at h
      | word => simp [hshape] at h
      | long name attached =>
          rw [hshape] at h
          simp only [readLong, hraise, hattach, hsettle] at h
          grind [map_eq_ok_iff]
      | letters t =>
          obtain ⟨c, t, rfl⟩ :=
            List.exists_cons_of_ne_nil (eq_of_ofText_letters hshape).2
          rw [hshape] at h
          simp only [readLetters, hraise, hattach, hsettle] at h
          grind [map_eq_ok_iff, bind_eq_ok_iff]

/-- An option is read as what it gives, once the value that is pending has
been looked at. -/
theorem readOption_eq_ok_iff {o o' : Settings} {arg : Text}
    {wanting : Option Setting} :
    o.readOption arg = .ok (o', wanting)
      ↔ ∃ o₁, o.settle = .ok o₁ ∧ ∃ gs, Written arg gs wanting
        ∧ o₁.addAll gs = .ok o' := by
  have hread : ∀ {o₁ : Settings} {gs : List Given}, o.settle = .ok o₁ →
      Written arg gs wanting →
      o.readOption arg = (·, wanting) <$> o₁.addAll gs := by
    intro o₁ gs hsettle harg
    have hsettled := isSettled_of_settle hsettle
    rw [readOption_congr (hsettle.trans hsettled.settle_eq.symm),
      hsettled.readOption_eq harg]
  constructor
  · intro h
    obtain ⟨o₁, hsettle⟩ := exists_settle_of_readOption h
    obtain ⟨gs, harg⟩ := written_of_readOption h
    rw [hread hsettle harg, map_eq_ok_iff] at h
    obtain ⟨o₂, hgs, heq⟩ := h
    cases heq
    exact ⟨o₁, hsettle, gs, harg, hgs⟩
  · rintro ⟨o₁, hsettle, gs, harg, hgs⟩
    rw [hread hsettle harg, hgs]
    rfl

/-- Whatever was pending before an option, nothing is after it. -/
theorem isSettled_of_readOption {o o' : Settings} {arg : Text}
    {wanting : Option Setting} (h : o.readOption arg = .ok (o', wanting)) :
    o'.IsSettled := by
  obtain ⟨o₁, hsettle, gs, -, hgs⟩ := readOption_eq_ok_iff.1 h
  exact (isSettled_of_settle hsettle).of_addAll hgs

end Settings
end Invocation
end FilterQuery
