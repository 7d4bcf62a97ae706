import LoxSyntax.Lexeme.Cut

/-!
# The lexical grammar

The classes of lexemes as sets of texts (`Lexeme.Belongs`) and the kind and value that a
text of such a class stands for (`Lexeme.Denotes`), stated without the reading of a text.
The reading is held to both.

* `Lexeme.WellFormed.read`: what is read is made as its class demands, so that it belongs
  to the class and stands for its kind and value.
* `Lexeme.Belongs.covered`: a text of any class that another one starts with is covered by
  the lexeme read there, which is then no error.
-/

namespace LoxSyntax.Lexeme

/-- The classes of lexemes. -/
inductive Class
  | blank | comment | mark | string | number | word
deriving DecidableEq, Repr

/-- One digit or more. -/
def Digits (w : List Char) : Prop :=
  w ≠ [] ∧ ∀ c ∈ w, c.isDigit = true

/-- The marks and their kinds: those of one letter, the slash, and those that may have an
equals sign behind them. -/
inductive Marks : List Char → Kind → Prop
  | single {c : Char} {kind : Kind} : (c, kind) ∈ singleMarks → Marks [c] kind
  | slash : Marks ['/'] .slash
  | alone {c : Char} {alone withEqual : Kind} :
    (c, alone, withEqual) ∈ equalMarks → Marks [c] alone
  | withEqual {c : Char} {alone withEqual : Kind} :
    (c, alone, withEqual) ∈ equalMarks → Marks [c, '='] withEqual

/-- The texts that belong to each class. -/
inductive Belongs : Class → List Char → Prop
  | blank {c : Char} : c ∈ [' ', '\t', '\r', '\n'] → Belongs .blank [c]
  | comment {text : List Char} : '\n' ∉ text → Belongs .comment ('/' :: '/' :: text)
  | mark {w : List Char} {kind : Kind} : Marks w kind → Belongs .mark w
  | string {contents : List Char} : '"' ∉ contents → Belongs .string ('"' :: (contents ++ ['"']))
  | whole {digits : List Char} : Digits digits → Belongs .number digits
  | decimal {whole fraction : List Char} :
    Digits whole → Digits fraction → Belongs .number (whole ++ '.' :: fraction)
  | word {first : Char} {more : List Char} :
    first.isAlpha = true ∨ first = '_' → (∀ c ∈ more, c.isAlphanum = true) →
    Belongs .word (first :: more)

/-- The kind and the value that a text stands for. -/
inductive Denotes : List Char → Kind → Value → Prop
  | mark {w : List Char} {kind : Kind} : Marks w kind → Denotes w kind .absent
  | string {contents : List Char} : '"' ∉ contents →
    Denotes ('"' :: (contents ++ ['"'])) .string (.text (String.ofList contents))
  | whole {digits : List Char} : Digits digits →
    Denotes digits .number (.number (.ofDecimal (.ofDigits digits [])))
  | decimal {whole fraction : List Char} : Digits whole → Digits fraction →
    Denotes (whole ++ '.' :: fraction) .number (.number (.ofDecimal (.ofDigits whole fraction)))
  | trueWord : Denotes Keyword.trueWord.spelling.toList (.keyword .trueWord) (.truth true)
  | falseWord : Denotes Keyword.falseWord.spelling.toList (.keyword .falseWord) (.truth false)
  | keyword {word : Keyword} : word ≠ .trueWord → word ≠ .falseWord →
    Denotes word.spelling.toList (.keyword word) .absent
  | identifier {w : List Char} : Belongs .word w →
    (∀ word : Keyword, word.spelling.toList ≠ w) →
    Denotes w .identifier (.text (String.ofList w))

/-- The class of a lexeme, unless it is an error. -/
def class? : Lexeme → Option Class
  | .blank _ => some .blank
  | .comment _ => some .comment
  | .mark _ _ => some .mark
  | .string _ => some .string
  | .number _ _ => some .number
  | .word _ => some .word
  | .unrecognized _ => none
  | .unclosed _ => none

/-- The lexemes without a class are those in error. -/
theorem error?_eq_none_iff {l : Lexeme} {line : Int} :
    l.error? line = none ↔ ∃ k, l.class? = some k := by
  cases l <;> simp [error?, class?]

/-! ## What is read is well formed -/

/-- A lexeme is made of the letters that its class demands. -/
def WellFormed : Lexeme → Prop
  | .blank letter => letter ∈ [' ', '\t', '\r', '\n']
  | .comment text => '\n' ∉ text
  | .mark kind spelling => Marks spelling kind
  | .string contents => '"' ∉ contents
  | .number whole fraction => Digits whole ∧ (fraction ≠ [] → Digits fraction)
  | .word letters => Belongs .word letters
  | .unrecognized _ => True
  | .unclosed _ => True

section

variable {first : Char} {rest : List Char}

theorem not_mem_takeWhile_ne (stop : Char) (text : List Char) :
    stop ∉ text.takeWhile (· != stop) := by
  intro member
  have other := List.all_eq_true.mp List.all_takeWhile stop member
  simp at other

theorem WellFormed.readSlash (rest : List Char) : WellFormed (readSlash rest) := by
  unfold Lexeme.readSlash
  split
  · exact not_mem_takeWhile_ne '\n' _
  · exact .slash

theorem WellFormed.readString (rest : List Char) : WellFormed (readString rest) := by
  unfold Lexeme.readString
  dsimp only
  split
  · trivial
  · exact not_mem_takeWhile_ne '"' _

theorem WellFormed.readNumber (digit : first.isDigit = true) (rest : List Char) :
    WellFormed (readNumber first rest) := by
  refine ⟨⟨nofun, fun c member => ?_⟩, fun fraction => ⟨fraction, fun c member => ?_⟩⟩
  · rcases List.mem_cons.mp member with rfl | later
    · exact digit
    · exact List.all_eq_true.mp List.all_takeWhile c later
  · unfold fractionDigits at member
    split at member
    · exact List.all_eq_true.mp List.all_takeWhile c member
    · cases member

theorem mem_of_lookup {α β : Type} [BEq α] [LawfulBEq α] {table : List (α × β)} {a : α} {b : β}
    (h : table.lookup a = some b) : (a, b) ∈ table := by
  rcases List.lookup_eq_some_iff.mp h with ⟨before, behind, split, -⟩
  rw [split]
  exact List.mem_append_right _ List.mem_cons_self

theorem WellFormed.read (first : Char) (rest : List Char) : WellFormed (read first rest) := by
  unfold Lexeme.read
  split
  · rename_i blank
    exact isBlank_iff.mp blank
  split
  · exact .readSlash rest
  split
  · exact .readString rest
  split
  · rename_i digit
    exact .readNumber digit rest
  split
  · rename_i starts
    exact .word (startsWord_iff.mp starts) (List.all_eq_true.mp List.all_takeWhile)
  split
  · rename_i kind found
    exact .single (mem_of_lookup found)
  · rename_i alone withEqual _ found
    have member := mem_of_lookup found
    split
    · exact .withEqual member
    · exact .alone member
  · trivial

end

/-- A well-formed lexeme covers a text of its class. -/
theorem WellFormed.belongs {l : Lexeme} {k : Class} (h : l.WellFormed) (h' : l.class? = some k) :
    Belongs k l.spelling := by
  cases l with
  | blank letter =>
    cases h'
    exact .blank h
  | comment text =>
    cases h'
    exact .comment h
  | mark kind spelling =>
    cases h'
    exact .mark h
  | string contents =>
    cases h'
    exact .string h
  | number whole fraction =>
    cases h'
    by_cases none : fraction = []
    · simpa [spelling, none] using Belongs.whole h.1
    · simpa [spelling, none] using Belongs.decimal h.1 (h.2 none)
  | word letters =>
    cases h'
    exact h
  | unrecognized letter => cases h'
  | unclosed contents => cases h'

theorem denotes_keyword (word : Keyword) :
    Denotes word.spelling.toList (.keyword word) (keywordValue word) := by
  cases word with
  | trueWord => exact .trueWord
  | falseWord => exact .falseWord
  | _ => exact .keyword nofun nofun

/-- A well-formed lexeme stands for the kind and the value of the text it covers. -/
theorem WellFormed.denotes {l : Lexeme} {kind : Kind} {value : Value} (h : l.WellFormed)
    (h' : l.meaning? = some (kind, value)) : Denotes l.spelling kind value := by
  cases l with
  | mark kind spelling =>
    cases h'
    exact .mark h
  | string contents =>
    cases h'
    exact .string h
  | number whole fraction =>
    cases h'
    by_cases none : fraction = []
    · simpa [spelling, none] using Denotes.whole h.1
    · simpa [spelling, none] using Denotes.decimal h.1 (h.2 none)
  | word letters =>
    simp only [meaning?, Option.some.injEq] at h'
    unfold wordMeaning at h'
    split at h'
    · rename_i keyword found
      cases h'
      have spelled := Keyword.spelling_of_ofSpelling? found
      have same : keyword.spelling.toList = letters := by rw [spelled, String.toList_ofList]
      rw [spelling, ← same]
      exact denotes_keyword keyword
    · rename_i none
      cases h'
      refine .identifier h fun keyword (same : keyword.spelling.toList = letters) => ?_
      rw [← same, String.ofList_toList, Keyword.ofSpelling?_spelling] at none
      cases none
  | blank letter => cases h'
  | comment text => cases h'
  | unrecognized letter => cases h'
  | unclosed contents => cases h'

/-- Well-formed lexemes of a class that stand for no token are blanks and comments. -/
theorem WellFormed.skipped {l : Lexeme} {k : Class} (h : l.WellFormed)
    (h' : l.class? = some k) (none : l.meaning? = none) :
    Belongs .blank l.spelling ∨ Belongs .comment l.spelling := by
  have belongs := h.belongs h'
  cases l with
  | blank letter =>
    cases h'
    exact .inl belongs
  | comment text =>
    cases h'
    exact .inr belongs
  | unrecognized letter => cases h'
  | unclosed contents => cases h'
  | mark kind spelling => cases none
  | string contents => cases none
  | number whole fraction => cases none
  | word letters => cases none

/-! ## What belongs to a class is read -/

theorem readSlash_comment {text : List Char} (h : '\n' ∉ text) (tail : List Char) :
    readSlash ('/' :: (text ++ tail)) = .comment (text ++ tail.takeWhile (· != '\n')) := by
  have inside : ∀ c ∈ text, (c != '\n') = true := by
    intro c member
    apply bne_iff_ne.mpr
    intro same
    subst same
    exact h member
  rw [readSlash, List.takeWhile_append_of_pos inside]

theorem readString_contents {contents : List Char} (h : '"' ∉ contents) (tail : List Char) :
    readString (contents ++ '"' :: tail) = .string contents := by
  have inside : ∀ c ∈ contents, (c != '"') = true := by
    intro c member
    apply bne_iff_ne.mpr
    intro same
    subst same
    exact h member
  simp [readString, List.takeWhile_append_of_pos inside, List.dropWhile_append_of_pos inside]

theorem readNumber_whole {more : List Char} (digits : ∀ c ∈ more, c.isDigit = true)
    (first : Char) (tail : List Char) :
    readNumber first (more ++ tail) = .number (first :: (more ++ tail.takeWhile Char.isDigit))
      (fractionDigits (tail.dropWhile Char.isDigit)) := by
  rw [readNumber, List.takeWhile_append_of_pos digits, List.dropWhile_append_of_pos digits]

theorem readNumber_decimal {more fraction : List Char}
    (digits : ∀ c ∈ more, c.isDigit = true) (digits' : ∀ c ∈ fraction, c.isDigit = true)
    (first : Char) (tail : List Char) :
    readNumber first (more ++ '.' :: (fraction ++ tail)) =
      .number (first :: more) (fraction ++ tail.takeWhile Char.isDigit) := by
  rw [readNumber_whole digits]
  simp [Char.isDigit, fractionDigits, List.takeWhile_append_of_pos digits']

/-- A lexeme covers a text: it is no error, and as long at least. -/
def Covers (l : Lexeme) (w : List Char) : Prop :=
  (∃ k, l.class? = some k) ∧ w.length ≤ l.spelling.length

theorem Marks.covered {w : List Char} {kind : Kind} (h : Marks w kind) {first : Char}
    {rest : List Char} (starts : w <+: first :: rest) : Covers (read first rest) w := by
  cases h with
  | single member =>
    rcases List.cons_prefix_cons.mp starts with ⟨rfl, tail, rfl⟩
    rw [read_of_mem_singleMarks member]
    exact ⟨⟨_, rfl⟩, Nat.le_refl _⟩
  | slash =>
    rcases List.cons_prefix_cons.mp starts with ⟨rfl, tail, rfl⟩
    rw [read_slash]
    unfold readSlash
    split
    · exact ⟨⟨_, rfl⟩, by simp [spelling]⟩
    · exact ⟨⟨_, rfl⟩, Nat.le_refl _⟩
  | alone member =>
    rcases List.cons_prefix_cons.mp starts with ⟨rfl, tail, rfl⟩
    rw [read_of_mem_equalMarks member]
    split
    · exact ⟨⟨_, rfl⟩, by simp [spelling]⟩
    · exact ⟨⟨_, rfl⟩, Nat.le_refl _⟩
  | withEqual member =>
    rcases List.cons_prefix_cons.mp starts with ⟨rfl, tail, rfl⟩
    rw [read_of_mem_equalMarks member]
    exact ⟨⟨.mark, rfl⟩, Nat.le_refl 2⟩

/-- A text of any class that another one starts with is covered by the lexeme read
there. -/
theorem Belongs.covered {k : Class} {w : List Char} (h : Belongs k w) {first : Char}
    {rest : List Char} (starts : w <+: first :: rest) : Covers (read first rest) w := by
  cases h with
  | mark mark => exact mark.covered starts
  | blank blank =>
    rcases List.cons_prefix_cons.mp starts with ⟨rfl, tail, rfl⟩
    rw [read_of_isBlank (isBlank_iff.mpr blank)]
    exact ⟨⟨_, rfl⟩, Nat.le_refl _⟩
  | comment text =>
    rcases List.cons_prefix_cons.mp starts with ⟨rfl, tail, rfl⟩
    rw [read_slash, List.cons_append, readSlash_comment text]
    exact ⟨⟨_, rfl⟩, by simp [spelling]⟩
  | string contents =>
    rcases List.cons_prefix_cons.mp starts with ⟨rfl, tail, rfl⟩
    rw [read_quote, List.append_assoc, List.singleton_append, readString_contents contents]
    exact ⟨⟨_, rfl⟩, Nat.le_refl _⟩
  | whole digits =>
    rcases digits with ⟨some, digits⟩
    rcases List.exists_cons_of_ne_nil some with ⟨d, more, rfl⟩
    rcases List.forall_mem_cons.mp digits with ⟨digit, digits⟩
    rcases List.cons_prefix_cons.mp starts with ⟨rfl, tail, rfl⟩
    rw [read_of_isDigit digit, readNumber_whole digits]
    refine ⟨⟨_, rfl⟩, ?_⟩
    simp only [spelling, List.length_append, List.length_cons]
    omega
  | decimal digits fraction =>
    rcases digits with ⟨some, digits⟩
    rcases List.exists_cons_of_ne_nil some with ⟨d, more, rfl⟩
    rcases List.forall_mem_cons.mp digits with ⟨digit, digits⟩
    rw [List.cons_append] at starts
    rcases List.cons_prefix_cons.mp starts with ⟨rfl, tail, rfl⟩
    rw [read_of_isDigit digit, List.append_assoc, List.cons_append,
      readNumber_decimal digits fraction.2]
    exact ⟨⟨_, rfl⟩, by simp [spelling, fraction.1]⟩
  | word letter letters =>
    rcases List.cons_prefix_cons.mp starts with ⟨rfl, tail, rfl⟩
    rw [read_of_startsWord (startsWord_iff.mpr letter), List.takeWhile_append_of_pos letters]
    exact ⟨⟨_, rfl⟩, by simp [spelling]⟩

/-- A lexeme on its own is read as what it stands for. -/
theorem Denotes.meaning?_read {w : List Char} {kind : Kind} {value : Value}
    (h : Denotes w kind value) {first : Char} {more : List Char} (split : w = first :: more) :
    (read first more).meaning? = some (kind, value) := by
  cases h with
  | mark mark =>
    cases mark with
    | single member =>
      cases split
      rw [read_of_mem_singleMarks member]
      rfl
    | slash =>
      cases split
      rfl
    | alone member =>
      cases split
      rw [read_of_mem_equalMarks member]
      rfl
    | withEqual member =>
      cases split
      rw [read_of_mem_equalMarks member]
      rfl
  | string contents =>
    cases split
    rw [read_quote, readString_contents contents]
    rfl
  | whole digits =>
    subst split
    obtain ⟨digit, digits⟩ := List.forall_mem_cons.mp digits.2
    have reading := readNumber_whole digits first []
    rw [List.append_nil] at reading
    rw [read_of_isDigit digit, reading]
    simp [meaning?, fractionDigits]
  | decimal digits fraction =>
    rcases digits with ⟨some, digits⟩
    rcases List.exists_cons_of_ne_nil some with ⟨d, before, rfl⟩
    rcases List.forall_mem_cons.mp digits with ⟨digit, digits⟩
    rw [List.cons_append] at split
    rcases List.cons.inj split with ⟨rfl, rfl⟩
    have reading := readNumber_decimal digits fraction.2 d []
    rw [List.append_nil] at reading
    rw [read_of_isDigit digit, reading]
    simp [meaning?]
  | trueWord =>
    cases split
    rfl
  | falseWord =>
    cases split
    rfl
  | @keyword word notTrue notFalse =>
    cases word with
    | trueWord => exact absurd rfl notTrue
    | falseWord => exact absurd rfl notFalse
    | _ =>
      cases split
      rfl
  | identifier belongs other =>
    subst split
    cases belongs with
    | word starts letters =>
      have none : Keyword.ofSpelling? (String.ofList (first :: more)) = none := by
        refine Keyword.ofSpelling?_eq_none fun word same => other word ?_
        rw [same, String.toList_ofList]
      have whole : (more ++ []).takeWhile Char.isAlphanum =
          more ++ [].takeWhile Char.isAlphanum := List.takeWhile_append_of_pos letters
      rw [List.append_nil, List.takeWhile_nil, List.append_nil] at whole
      rw [read_of_startsWord (startsWord_iff.mpr starts), whole, meaning?, wordMeaning, none]

/-- A blank or a comment on its own is read as what stands for no token. -/
theorem meaning?_read_of_skipped {w : List Char} (h : Belongs .blank w ∨ Belongs .comment w)
    {first : Char} {more : List Char} (split : w = first :: more) :
    (read first more).meaning? = none := by
  rcases h with blank | comment
  · cases blank with
    | blank letter =>
      cases split
      rw [read_of_isBlank (isBlank_iff.mpr letter)]
      rfl
  · cases comment with
    | comment text =>
      cases split
      rfl

/-- No lexeme is empty. -/
theorem Belongs.exists_cons {k : Class} {w : List Char} (h : Belongs k w) :
    ∃ first more, w = first :: more := by
  cases h with
  | mark mark => cases mark <;> exact ⟨_, _, rfl⟩
  | whole digits => exact List.exists_cons_of_ne_nil digits.1
  | decimal digits _ =>
    obtain ⟨d, more, rfl⟩ := List.exists_cons_of_ne_nil digits.1
    exact ⟨d, _, rfl⟩
  | blank _ => exact ⟨_, _, rfl⟩
  | comment _ => exact ⟨_, _, rfl⟩
  | string _ => exact ⟨_, _, rfl⟩
  | word _ _ => exact ⟨_, _, rfl⟩

end LoxSyntax.Lexeme
