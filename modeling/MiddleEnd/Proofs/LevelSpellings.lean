import Mathlib.Data.List.TakeWhile
import Mathlib.Tactic.SplitIfs
import MiddleEnd.Level

/-!
# The texts that name a level

In small letters a level is written as a word, as a word behind the dash and
the letter of a compiler switch, or as a digit behind the letter alone.  The
level of a text is found by taking the switch off first, and the two forms of
the switch overlap with each other and with the words.  `Level.Spells` lists the
ways of writing a level without regard to this; the texts that it lists are the
ones that are read, each as the level that it is listed for.
-/

namespace MiddleEnd

/-! ## Terminated texts -/

theorem null_not_mem_terminated (text : String) :
    '\x00' ∉ (terminated text).toList := by
  rw [terminated, String.toList_ofList]
  intro member
  simpa using List.mem_takeWhile_imp member

theorem ne_null_of_not_mem {text : String} (whole : '\x00' ∉ text.toList) :
    ∀ character ∈ text.toList, decide (character ≠ '\x00') = true := by
  intro character member
  rw [decide_eq_true_iff]
  rintro rfl
  exact whole member

theorem terminated_of_not_mem {text : String} (whole : '\x00' ∉ text.toList) :
    terminated text = text := by
  rw [terminated, List.takeWhile_eq_self_iff.2 (ne_null_of_not_mem whole),
    String.ofList_toList]

/-- What stands from the first null character on is lost. -/
theorem terminated_append_null
    {shown : String}
    (whole : '\x00' ∉ shown.toList)
    (rest : String) :
    terminated (shown ++ "\x00" ++ rest) = shown := by
  rw [terminated, String.append_assoc, String.toList_append,
    List.takeWhile_append_of_pos (ne_null_of_not_mem whole), String.toList_append]
  show String.ofList (shown.toList ++ []) = shown
  rw [List.append_nil, String.ofList_toList]

namespace Level

/-! ## Words -/

/-- The digits, each with the level that it names. -/
def digits : List (String × Level) :=
  [("0", .none), ("1", .basic), ("2", .standard), ("3", .aggressive)]

/-- The digits and the names, each with the level that it names. -/
def words : List (String × Level) :=
  digits ++
    [("none", .none), ("basic", .basic), ("standard", .standard),
      ("aggressive", .aggressive)]

/-- The ways of writing a level in small letters. -/
inductive Spells : String → Level → Prop where
  | word {text : String} {level : Level}
      (known : (text, level) ∈ words) :
      Spells text level
  | switch {text : String} {level : Level}
      (known : (text, level) ∈ words) :
      Spells ("-o" ++ text) level
  | letter {text : String} {level : Level}
      (known : (text, level) ∈ digits) :
      Spells ("o" ++ text) level

theorem ofWord?_of_mem_words :
    ∀ entry ∈ words, ofWord? entry.1.toList = some entry.2 := by
  decide

theorem mem_words_of_ofWord?
    {word : List Char}
    {level : Level}
    (found : ofWord? word = some level) :
    (String.ofList word, level) ∈ words := by
  unfold ofWord? at found
  split_ifs at found with none basic standard aggressive
  · cases found
    rcases none with rfl | rfl <;> decide
  · cases found
    rcases basic with rfl | rfl <;> decide
  · cases found
    rcases standard with rfl | rfl <;> decide
  · cases found
    rcases aggressive with rfl | rfl <;> decide

theorem mem_digits_of_mem_words :
    ∀ entry ∈ words, entry.1.toList.length = 1 → entry ∈ digits := by
  decide

/-! ## Switches -/

/-- No word looks like a switch. -/
theorem withoutSwitch_of_mem_words :
    ∀ entry ∈ words, withoutSwitch entry.1.toList = entry.1.toList := by
  decide

theorem withoutSwitch_of_mem_digits :
    ∀ entry ∈ digits, withoutSwitch ('o' :: entry.1.toList) = entry.1.toList := by
  decide

theorem withoutSwitch_cases (text : List Char) :
    (∃ word, text = '-' :: 'o' :: word ∧ withoutSwitch text = word) ∨
      (∃ digit, text = ['o', digit] ∧ withoutSwitch text = [digit]) ∨
      withoutSwitch text = text := by
  unfold withoutSwitch
  split
  · exact Or.inl ⟨_, rfl, rfl⟩
  · exact Or.inr (Or.inl ⟨_, rfl, rfl⟩)
  · exact Or.inr (Or.inr rfl)

theorem ofWord?_withoutSwitch_eq_some_iff (text : String) (level : Level) :
    ofWord? (withoutSwitch text.toList) = some level ↔ Spells text level := by
  constructor
  · intro found
    rcases withoutSwitch_cases text.toList with
      ⟨word, written, rest⟩ | ⟨digit, written, rest⟩ | rest
    · rw [rest] at found
      have same : text = "-o" ++ String.ofList word := by
        rw [← String.toList_inj, written]
        simp
      rw [same]
      exact .switch (mem_words_of_ofWord? found)
    · rw [rest] at found
      have same : text = "o" ++ String.ofList [digit] := by
        rw [← String.toList_inj, written]
        simp
      rw [same]
      apply Spells.letter
      apply mem_digits_of_mem_words _ (mem_words_of_ofWord? found)
      rw [String.toList_ofList]
      rfl
    · rw [rest] at found
      have known := mem_words_of_ofWord? found
      rw [String.ofList_toList] at known
      exact .word known
  · intro spells
    cases spells with
    | word known =>
        rw [withoutSwitch_of_mem_words _ known]
        exact ofWord?_of_mem_words _ known
    | @switch word _ known =>
        rw [String.toList_append]
        exact ofWord?_of_mem_words _ known
    | @letter digit _ known =>
        rw [String.toList_append]
        show ofWord? (withoutSwitch ('o' :: digit.toList)) = _
        rw [withoutSwitch_of_mem_digits _ known]
        exact ofWord?_of_mem_words _ (List.mem_append_left _ known)

/-! ## Texts -/

theorem toList_toLower (text : String) :
    text.toLower.toList = text.toList.map Char.toLower :=
  String.toList_map

/-- A text is read by its small letters alone. -/
theorem toOption_parse (text : String) :
    (parse text).toOption = ofWord? (withoutSwitch text.toLower.toList) := by
  rw [toList_toLower, parse]
  cases ofWord? (withoutSwitch (text.toList.map Char.toLower)) <;> rfl

theorem parse_eq_ok_iff (text : String) (level : Level) :
    parse text = .ok level ↔ Spells text.toLower level := by
  rw [← ofWord?_withoutSwitch_eq_some_iff, ← toOption_parse]
  cases parse text <;> simp [Except.toOption]

theorem parse_eq_error
    {text : String}
    (unknown : ∀ level, ¬ Spells text.toLower level) :
    parse text = .error ⟨text⟩ := by
  simp only [← parse_eq_ok_iff] at unknown
  unfold parse at unknown ⊢
  cases found : ofWord? (withoutSwitch (text.toList.map Char.toLower)) with
  | none => rfl
  | some level =>
      simp only [found] at unknown
      exact absurd rfl (unknown level)

/-- The letters in which a name is printed are small. -/
theorem parse_name (level : Level) : parse level.name = .ok level := by
  cases level <;> rfl

end Level

theorem UnknownLevel.message_of_not_mem
    {unknown : UnknownLevel}
    (whole : '\x00' ∉ unknown.text.toList) :
    unknown.message = "invalid optimization level: '" ++ unknown.text ++ "'" := by
  apply terminated_of_not_mem
  simp only [String.toList_append, List.mem_append, not_or]
  exact ⟨⟨by decide, whole⟩, by decide⟩

theorem UnknownLevel.message_of_null
    {shown : String}
    (whole : '\x00' ∉ shown.toList)
    (rest : String) :
    (UnknownLevel.mk (shown ++ "\x00" ++ rest)).message =
      "invalid optimization level: '" ++ shown := by
  have quoted : '\x00' ∉ ("invalid optimization level: '" ++ shown).toList := by
    simp only [String.toList_append, List.mem_append, not_or]
    exact ⟨by decide, whole⟩
  rw [message, ← terminated_append_null quoted (rest ++ "'")]
  simp only [String.append_assoc]

namespace Level

/--
A text names a level if it spells one in small letters, and then it names that
one; the case of its letters does not matter, and the printed name of a level
names it.  Any other text is refused with a message that quotes it up to its
first null character, and in full if it has none.
-/
theorem parse_reads_spellings (text : String) :
    (∀ level, parse text = .ok level ↔ Spells text.toLower level) ∧
    ((∀ level, ¬ Spells text.toLower level) →
      ∃ unknown,
        parse text = .error unknown ∧
        ('\x00' ∉ text.toList →
          unknown.message = "invalid optimization level: '" ++ text ++ "'") ∧
        (∀ shown rest,
          text = shown ++ "\x00" ++ rest → '\x00' ∉ shown.toList →
            unknown.message = "invalid optimization level: '" ++ shown)) ∧
    (∀ other, other.toLower = text.toLower →
      (parse other).toOption = (parse text).toOption) ∧
    (∀ level, parse level.name = .ok level) := by
  refine ⟨parse_eq_ok_iff text, ?_, ?_, parse_name⟩
  · intro unknown
    refine ⟨⟨text⟩, parse_eq_error unknown, UnknownLevel.message_of_not_mem, ?_⟩
    rintro shown rest rfl whole
    exact UnknownLevel.message_of_null whole rest
  · intro other same
    rw [toOption_parse, toOption_parse, same]

/-- A letter before two digits, and a null character behind a level. -/
theorem parse_reads_spellings_refused :
    (∀ level, ¬ Spells "O22".toLower level) ∧
    '\x00' ∉ "O22".toList ∧
    (∃ unknown,
      parse "O22" = .error unknown ∧
        unknown.message = "invalid optimization level: 'O22'") ∧
    "o22".toLower = "O22".toLower ∧
    (parse "o22").toOption = (parse "O22").toOption ∧
    (∀ level, ¬ Spells "-O2\x00x".toLower level) ∧
    '\x00' ∉ "-O2".toList ∧
    (∃ unknown,
      parse "-O2\x00x" = .error unknown ∧
        unknown.message = "invalid optimization level: '-O2") := by
  have letterRefused : ∀ level, ¬ Spells "O22".toLower level := by
    intro level spells
    cases (parse_eq_ok_iff "O22" level).2 spells
  have switchRefused : ∀ level, ¬ Spells "-O2\x00x".toLower level := by
    intro level spells
    cases (parse_eq_ok_iff "-O2\x00x" level).2 spells
  have same : "o22".toLower = "O22".toLower := by
    rw [← String.toList_inj, toList_toLower, toList_toLower]
    decide
  have letterWhole : '\x00' ∉ "O22".toList := by
    decide
  have switchWhole : '\x00' ∉ "-O2".toList := by
    decide
  rcases parse_reads_spellings "O22" with ⟨_, letter, folded, _⟩
  rcases parse_reads_spellings "-O2\x00x" with ⟨_, switch, _, _⟩
  rcases letter letterRefused with ⟨unknown, refused, quoted, _⟩
  rcases switch switchRefused with ⟨other, otherRefused, _, cut⟩
  exact ⟨letterRefused, letterWhole, ⟨unknown, refused, quoted letterWhole⟩,
    same, folded "o22" same, switchRefused, switchWhole,
    ⟨other, otherRefused, cut "-O2" "x" (by decide) switchWhole⟩⟩

/-- The message about a text with a null character in it does not quote it. -/
theorem parse_message_cut :
    let text := "none\x00"
    parse text = .error ⟨text⟩ ∧
    (UnknownLevel.mk text).message = "invalid optimization level: 'none" ∧
    ∀ before after,
      (UnknownLevel.mk text).message ≠ before ++ text ++ after := by
  intro text
  have refused : parse "none\x00" = .error ⟨"none\x00"⟩ := rfl
  refine ⟨refused, by decide, ?_⟩
  intro before after quoted
  apply null_not_mem_terminated ("invalid optimization level: '" ++ text ++ "'")
  show '\x00' ∈ (UnknownLevel.mk text).message.toList
  rw [quoted, String.toList_append, String.toList_append]
  exact List.mem_append_left _ (List.mem_append_right _ (by decide))

end Level

end MiddleEnd
