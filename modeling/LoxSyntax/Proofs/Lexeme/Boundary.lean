import LoxSyntax.Proofs.Lexeme.MaximalMunch

/-!
# Where lexemes end

A lexeme ends in front of a text that does not prolong it (`Lexeme.EndsBefore`), which one
letter of the text settles, or two where a point may follow a number. What is read at the
head of a text ends in front of the rest (`Lexeme.endsBefore_read`), and a lexeme is cut off
in front of every text that it ends before (`Lexeme.Readable.cut_append`). So the cut of a
text can be followed lexeme by lexeme (`Lexeme.cut_rows`), and the cut of another text that
spells the lexemes anew is known as soon as they still end. What stands for a token ends in
front of every blank (`Lexeme.endsBefore_of_closing`).
-/

namespace LoxSyntax.Lexeme

/-! ## Ends -/

/-- The text does not prolong the lexeme in front of it. -/
def EndsBefore : Lexeme → List Char → Prop
  | .comment _, tail => ∀ c ∈ tail.head?, c = '\n'
  | .mark _ spelling, tail => ∀ c ∈ tail.head?,
      (spelling = ['/'] → c ≠ '/') ∧ (spelling ∈ equalMarks.map (fun mark => [mark.1]) → c ≠ '=')
  | .number _ fraction, tail =>
      (∀ c ∈ tail.head?, c.isDigit = false) ∧ (fraction = [] → fractionDigits tail = [])
  | .word _, tail => ∀ c ∈ tail.head?, c.isAlphanum = false
  | .unclosed _, tail => tail = []
  | .blank _, _ => True
  | .string _, _ => True
  | .unrecognized _, _ => True

theorem endsBefore_nil (l : Lexeme) : l.EndsBefore [] := by
  cases l with
  | number _ _ => exact ⟨nofun, fun _ => rfl⟩
  | unclosed _ => rfl
  | blank _ => trivial
  | string _ => trivial
  | unrecognized _ => trivial
  | _ => exact nofun

section

variable {first : Char} {rest : List Char}

/-- The text read as a lexeme is followed by the rest. -/
theorem prefix_of_read {l : Lexeme} {u : List Char} (reading : read first rest = l)
    (ahead : u <+: rest.drop (l.spelling.length - 1)) : l.spelling ++ u <+: first :: rest := by
  subst reading
  rw [← spelling_read_append first rest]
  exact (List.prefix_append_right_inj _).mpr ahead

/-- A text of any class is no longer than the lexeme read where it stands. -/
theorem not_belongs_of_read {l : Lexeme} {u : List Char} (reading : read first rest = l)
    (ahead : u <+: rest.drop (l.spelling.length - 1)) (some : u ≠ []) (k : Class) :
    ¬ Belongs k (l.spelling ++ u) := by
  intro belongs
  have covered := (belongs.covered (prefix_of_read reading ahead)).2
  rw [reading, List.length_append] at covered
  have length := List.length_pos_iff.mpr some
  omega

/-- With the letter behind it a lexeme that is read belongs to no class. -/
theorem not_belongs_of_head {l : Lexeme} {c : Char} (reading : read first rest = l)
    (head : c ∈ (rest.drop (l.spelling.length - 1)).head?) (k : Class) :
    ¬ Belongs k (l.spelling ++ [c]) := by
  obtain ⟨tail, split⟩ := List.head?_eq_some_iff.mp head
  exact not_belongs_of_read reading ⟨tail, split.symm⟩ (List.cons_ne_nil c []) k

end

theorem Digits.concat {w : List Char} {c : Char} (h : Digits w) (digit : c.isDigit = true) :
    Digits (w ++ [c]) := by
  refine ⟨List.append_ne_nil_of_left_ne_nil h.1 _, fun d member => ?_⟩
  rcases List.mem_append.mp member with inside | last
  · exact h.2 d inside
  · exact List.mem_singleton.mp last ▸ digit

/-- A fraction ahead starts with a point and a digit. -/
theorem exists_of_fractionDigits_ne_nil {text : List Char} (h : fractionDigits text ≠ []) :
    ∃ d, d.isDigit = true ∧ ['.', d] <+: text := by
  unfold fractionDigits at h
  split at h
  · rename_i rest
    obtain ⟨d, more, digits⟩ := List.exists_cons_of_ne_nil h
    obtain ⟨tail, rfl, digit⟩ : ∃ tail, rest = d :: tail ∧ d.isDigit = true := by
      cases rest with
      | nil => cases digits
      | cons c tail =>
        rw [List.takeWhile_cons] at digits
        split at digits
        · rename_i digit
          cases digits
          exact ⟨tail, rfl, digit⟩
        · cases digits
    exact ⟨d, digit, tail, rfl⟩
  · exact absurd rfl h

/-- No fraction is ahead where a point and a digit start only if they start a text without a
fraction ahead. -/
theorem fractionDigits_eq_nil_of_prefix {text text' : List Char} (h : fractionDigits text = [])
    (same : ∀ d, d.isDigit = true → ['.', d] <+: text' → ['.', d] <+: text) :
    fractionDigits text' = [] := by
  refine Classical.byContradiction fun point => ?_
  obtain ⟨d, digit, ahead⟩ := exists_of_fractionDigits_ne_nil point
  obtain ⟨behind, rfl⟩ := same d digit ahead
  simp [fractionDigits, digit] at h

/-- An unclosed string covers all the text behind its quote. -/
theorem contents_of_read_eq_unclosed {first : Char} {rest contents : List Char}
    (h : read first rest = .unclosed contents) : contents = rest := by
  unfold read at h
  split at h
  · cases h
  split at h
  · unfold readSlash at h
    split at h <;> cases h
  split at h
  · unfold readString at h
    dsimp only at h
    split at h
    · rename_i ends
      cases h
      have whole := List.takeWhile_append_dropWhile (p := (· != '"')) (l := rest)
      rwa [ends, List.append_nil] at whole
    · cases h
  split at h
  · cases h
  split at h
  · cases h
  split at h
  · cases h
  · split at h <;> cases h
  · cases h

/-- What is read at the head of a text ends in front of the rest: were it prolonged, a
longer text of some class would stand there. -/
theorem endsBefore_read (first : Char) (rest : List Char) :
    (read first rest).EndsBefore (rest.drop ((read first rest).spelling.length - 1)) := by
  have made := WellFormed.read first rest
  generalize reading : read first rest = l at made
  have prolonged {c : Char} := not_belongs_of_head (c := c) reading
  cases l with
  | blank _ => trivial
  | string _ => trivial
  | unrecognized _ => trivial
  | unclosed contents =>
    obtain rfl := contents_of_read_eq_unclosed reading
    simp [EndsBefore, spelling]
  | comment text =>
    intro c head
    refine Classical.byContradiction fun goesOn => prolonged head .comment (.comment ?_)
    intro member
    rcases List.mem_append.mp member with inside | last
    · exact made inside
    · exact goesOn (List.mem_singleton.mp last).symm
  | mark kind spelling =>
    intro c head
    refine ⟨fun slash same => ?_, fun alone same => ?_⟩
    · subst slash same
      exact prolonged head .comment (.comment List.not_mem_nil)
    · obtain ⟨⟨letter, alone, withEqual⟩, member, rfl⟩ := List.mem_map.mp alone
      subst same
      exact prolonged head .mark (.mark (.withEqual member))
  | word letters =>
    intro c head
    refine Bool.eq_false_iff.mpr fun alphanum => prolonged head .word ?_
    cases made with
    | word starts letters =>
      refine .word starts fun d member => ?_
      rcases List.mem_append.mp member with inside | last
      · exact letters d inside
      · exact List.mem_singleton.mp last ▸ alphanum
  | number whole fraction =>
    obtain ⟨digits, digits'⟩ := made
    by_cases none : fraction = []
    · subst none
      have spelled : (Lexeme.number whole []).spelling = whole := List.append_nil whole
      refine ⟨fun c head => ?_, fun _ => ?_⟩
      · refine Bool.eq_false_iff.mpr fun digit => prolonged head .number ?_
        rw [spelled]
        exact .whole (digits.concat digit)
      · refine Classical.byContradiction fun point => ?_
        obtain ⟨d, digit, ahead⟩ := exists_of_fractionDigits_ne_nil point
        refine not_belongs_of_read reading ahead (List.cons_ne_nil _ _) .number ?_
        rw [spelled]
        exact .decimal digits ⟨List.cons_ne_nil d [], by simpa using digit⟩
    · have spelled : (Lexeme.number whole fraction).spelling = whole ++ '.' :: fraction := by
        simp [spelling, none]
      refine ⟨fun c head => ?_, fun absent => absurd absent none⟩
      refine Bool.eq_false_iff.mpr fun digit => prolonged head .number ?_
      rw [spelled, List.append_assoc, List.cons_append]
      exact .decimal digits ((digits' none).concat digit)

/-! ## What ends is cut off -/

theorem takeWhile_of_head {p : Char → Bool} {tail : List Char}
    (h : ∀ c ∈ tail.head?, p c = false) : tail.takeWhile p = [] := by
  cases tail with
  | nil => rfl
  | cons c tail => exact List.takeWhile_cons_of_neg (by simp [h c rfl])

theorem dropWhile_of_head {p : Char → Bool} {tail : List Char}
    (h : ∀ c ∈ tail.head?, p c = false) : tail.dropWhile p = tail := by
  cases tail with
  | nil => rfl
  | cons c tail => exact List.dropWhile_cons_of_neg (by simp [h c rfl])

/-- A lexeme that is no error is read where its text stands and what follows does not
prolong it. -/
theorem WellFormed.read_append {l : Lexeme} {k : Class} (h : l.WellFormed)
    (sound : l.class? = some k) {first : Char} {more tail : List Char}
    (spelled : l.spelling = first :: more) (ends : l.EndsBefore tail) :
    Lexeme.read first (more ++ tail) = l := by
  cases l with
  | unrecognized _ => cases sound
  | unclosed _ => cases sound
  | blank letter =>
    cases spelled
    exact read_of_isBlank (isBlank_iff.mpr h) _
  | comment text =>
    cases spelled
    have stops : ∀ c ∈ tail.head?, (c != '\n') = false := fun c head => by simp [ends c head]
    rw [read_slash, List.cons_append, readSlash_comment h, takeWhile_of_head stops,
      List.append_nil]
  | string contents =>
    cases spelled
    show Lexeme.readString (contents ++ ['"'] ++ tail) = _
    rw [List.append_assoc, List.singleton_append, readString_contents h]
  | word letters =>
    cases h with
    | word starts letters =>
      cases spelled
      rw [read_of_startsWord (startsWord_iff.mpr starts), List.takeWhile_append_of_pos letters,
        takeWhile_of_head ends, List.append_nil]
  | mark kind spelling =>
    subst spelled
    cases h with
    | single member => exact read_of_mem_singleMarks member _
    | slash =>
      rw [List.nil_append, read_slash]
      cases tail with
      | nil => rfl
      | cons c tail =>
        have other := (ends c rfl).1 rfl
        simp [Lexeme.readSlash, other]
    | alone member =>
      rw [List.nil_append, read_of_mem_equalMarks member, if_neg]
      intro equal
      exact (ends '=' equal).2 (List.mem_map.mpr ⟨_, member, rfl⟩) rfl
    | withEqual member => exact read_of_mem_equalMarks member _
  | number whole fraction =>
    obtain ⟨⟨some, digits⟩, digits'⟩ := h
    obtain ⟨d, before, rfl⟩ := List.exists_cons_of_ne_nil some
    obtain ⟨digit, digits⟩ := List.forall_mem_cons.mp digits
    by_cases none : fraction = []
    · subst none
      obtain ⟨rfl, rfl⟩ : d = first ∧ before = more := by simpa [Lexeme.spelling] using spelled
      rw [read_of_isDigit digit, readNumber_whole digits, takeWhile_of_head ends.1,
        dropWhile_of_head ends.1, List.append_nil, ends.2 rfl]
    · obtain ⟨rfl, rfl⟩ : d = first ∧ before ++ '.' :: fraction = more := by
        simpa [Lexeme.spelling, none] using spelled
      rw [read_of_isDigit digit, List.append_assoc, List.cons_append,
        readNumber_decimal digits (digits' none).2, takeWhile_of_head ends.1, List.append_nil]

/-- A letter that starts no lexeme is read as such in front of any text. -/
theorem read_eq_unrecognized {first letter : Char} {rest : List Char}
    (h : read first rest = .unrecognized letter) (rest' : List Char) :
    letter = first ∧ read first rest' = .unrecognized letter := by
  unfold read at h ⊢
  split at h
  · cases h
  split at h
  · unfold readSlash at h
    split at h <;> cases h
  split at h
  · unfold readString at h
    dsimp only at h
    split at h <;> cases h
  split at h
  · cases h
  split at h
  · cases h
  split at h
  · cases h
  · split at h <;> cases h
  · cases h
    simp [*]

/-- The lexeme is what is read from the text it covers. -/
def Readable (l : Lexeme) : Prop :=
  ∃ first more, l.spelling = first :: more ∧ read first more = l

theorem WellFormed.readable {l : Lexeme} {k : Class} (h : l.WellFormed)
    (sound : l.class? = some k) : l.Readable := by
  obtain ⟨first, more, spelled⟩ := (h.belongs sound).exists_cons
  have reading := h.read_append sound spelled l.endsBefore_nil
  rw [List.append_nil] at reading
  exact ⟨first, more, spelled, reading⟩

theorem readable_read (first : Char) (rest : List Char) : (read first rest).Readable := by
  have made := WellFormed.read first rest
  generalize reading : read first rest = l at made
  cases l with
  | unrecognized letter =>
    obtain ⟨rfl, again⟩ := read_eq_unrecognized reading []
    exact ⟨letter, [], rfl, again⟩
  | unclosed contents =>
    obtain rfl := contents_of_read_eq_unclosed reading
    have spelled := spelling_read first contents
    rw [reading] at spelled
    obtain ⟨more, after, spelled, -⟩ := spelled
    obtain ⟨rfl, rfl⟩ := List.cons.inj spelled
    exact ⟨_, _, rfl, reading⟩
  | _ => exact made.readable rfl

theorem Readable.wellFormed {l : Lexeme} (h : l.Readable) : l.WellFormed := by
  obtain ⟨first, more, -, reading⟩ := h
  exact reading ▸ WellFormed.read first more

theorem Readable.read_append {l : Lexeme} (h : l.Readable) {first : Char} {more tail : List Char}
    (spelled : l.spelling = first :: more) (ends : l.EndsBefore tail) :
    read first (more ++ tail) = l := by
  obtain ⟨first', more', spelled', reading⟩ := h
  obtain ⟨rfl, rfl⟩ := List.cons.inj (spelled.symm.trans spelled')
  have made := WellFormed.read first more
  rw [reading] at made
  cases l with
  | unrecognized letter => exact (read_eq_unrecognized reading _).2
  | unclosed contents =>
    obtain rfl : tail = [] := ends
    rwa [List.append_nil]
  | _ => exact made.read_append rfl spelled ends

/-- A readable lexeme is cut off in front of a text that does not prolong it. -/
theorem Readable.cut_append {l : Lexeme} (h : l.Readable) {tail : List Char}
    (ends : l.EndsBefore tail) : cut (l.spelling ++ tail) = l :: cut tail := by
  obtain ⟨first, more, spelled, alone⟩ := h
  have reading := Readable.read_append ⟨first, more, spelled, alone⟩ spelled ends
  rw [spelled, List.cons_append, cut_cons, reading, spelled]
  simp

/-- The spelling of a readable lexeme is cut into that lexeme. -/
theorem Readable.cut_spelling {l : Lexeme} (h : l.Readable) : cut l.spelling = [l] := by
  have cut := h.cut_append (endsBefore_nil l)
  rwa [List.append_nil] at cut

/-- A blank is cut off in front of every text. -/
theorem cut_blank {c : Char} (h : isBlank c = true) (text : List Char) :
    cut (c :: text) = .blank c :: cut text := by
  rw [cut_cons, read_of_isBlank h]
  rfl

/-- Induction along a cut, lexeme by lexeme: what holds of a text without letters, and in
front of any text with a lexeme that ends there, holds of every text and its cut. -/
theorem cut_rows {motive : List Char → List Lexeme → Prop} (nil : motive [] [])
    (cons : ∀ l tail, l.Readable → l.EndsBefore tail → motive tail (cut tail) →
      motive (l.spelling ++ tail) (l :: cut tail)) (text : List Char) :
    motive text (cut text) := by
  induction text using cut_induction with
  | nil => exact nil
  | cons first rest ih =>
    have whole := cons _ _ (readable_read first rest) (endsBefore_read first rest) ih
    rwa [spelling_read_append, ← cut_cons] at whole

theorem readable_of_mem_cut {text : List Char} {l : Lexeme} (h : l ∈ cut text) : l.Readable := by
  induction text using cut_induction with
  | nil => cases h
  | cons first rest ih =>
    rw [cut_cons] at h
    rcases List.mem_cons.mp h with rfl | later
    · exact readable_read first rest
    · exact ih later

theorem Readable.spelling_ne_nil {l : Lexeme} (h : l.Readable) : l.spelling ≠ [] := by
  obtain ⟨first, more, spelled, -⟩ := h
  rw [spelled]
  exact List.cons_ne_nil first more

/-- A text is cut into no more lexemes than it has letters. -/
theorem length_cut_le (text : List Char) : (cut text).length ≤ text.length := by
  induction text using cut_induction with
  | nil => exact Nat.le_refl 0
  | cons first rest ih =>
    rw [List.length_drop] at ih
    rw [cut_cons, List.length_cons, List.length_cons]
    omega

/-! ## Lexemes that stand for tokens -/

/-- What stands for a token ends in front of a blank and of a closing parenthesis. -/
theorem endsBefore_of_closing {l : Lexeme} {tail : List Char} (meant : l.meaning? ≠ none)
    (closing : ∀ c ∈ tail.head?, isBlank c = true ∨ c = ')') : l.EndsBefore tail := by
  cases tail with
  | nil => exact endsBefore_nil l
  | cons c tail =>
    have facts : c.isAlphanum = false ∧ c.isDigit = false ∧ c ≠ '/' ∧ c ≠ '=' ∧ c ≠ '.' := by
      rcases closing c rfl with blank | rfl
      · simp only [isBlank, Bool.or_eq_true, beq_iff_eq] at blank
        rcases blank with ((rfl | rfl) | rfl) | rfl <;> decide
      · decide
    obtain ⟨alphanum, digit, slash, equal, point⟩ := facts
    cases l with
    | blank _ => exact absurd rfl meant
    | comment _ => exact absurd rfl meant
    | unrecognized _ => exact absurd rfl meant
    | unclosed _ => exact absurd rfl meant
    | string _ => trivial
    | word _ =>
      intro d head
      cases head
      exact alphanum
    | mark _ _ =>
      intro d head
      cases head
      exact ⟨fun _ => slash, fun _ => equal⟩
    | number _ _ =>
      refine ⟨fun d head => ?_, fun _ => by simp [fractionDigits, point]⟩
      cases head
      exact digit

/-- What is no string without its end ends in front of a blank, and a comment in front of a line
feed. -/
theorem endsBefore_blank {l : Lexeme} {letter : Char} (blank : isBlank letter = true)
    (closed : ∀ contents, l ≠ .unclosed contents) (ended : ∀ text, l = .comment text → letter = '\n')
    (tail : List Char) : l.EndsBefore (letter :: tail) := by
  have closing : ∀ c ∈ (letter :: tail).head?, isBlank c = true ∨ c = ')' := by
    intro c head
    cases head
    exact .inl blank
  cases l with
  | unclosed contents => exact absurd rfl (closed contents)
  | comment text =>
    intro c head
    cases head
    exact ended text rfl
  | blank _ => trivial
  | unrecognized _ => trivial
  | string _ => trivial
  | mark _ _ => exact endsBefore_of_closing (Option.some_ne_none _) closing
  | number _ _ => exact endsBefore_of_closing (Option.some_ne_none _) closing
  | word _ => exact endsBefore_of_closing (Option.some_ne_none _) closing

/-- A text that stands for a token is the spelling of a lexeme that is read from it. -/
theorem Denotes.exists_readable {w : List Char} {kind : Kind} {value : Value}
    (h : Denotes w kind value) :
    ∃ l : Lexeme, l.Readable ∧ l.spelling = w ∧ l.meaning? = some (kind, value) := by
  obtain ⟨first, more, split⟩ := h.exists_cons
  obtain ⟨k, belongs⟩ := h.belongs
  subst split
  have whole := spelling_read_append first more
  have covered := (belongs.covered (List.prefix_refl _)).2
  refine ⟨read first more, readable_read first more, ?_, h.meaning?_read rfl⟩
  exact List.IsPrefix.eq_of_length_le ⟨_, whole⟩ covered

end LoxSyntax.Lexeme
