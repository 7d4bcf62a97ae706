import LoxSyntax.Proofs.Token.Text
import LoxSyntax.Proofs.TokenStream.GoodPrefix
import LoxSyntax.Proofs.TokenStream.Lines

/-!
# Stray letters

A letter that starts no lexeme is in error wherever it stands outside strings and comments,
and nowhere else (`Zone.Stray`). Which letters stand in strings and comments is settled by the
letters before them alone: by the quotes, the slashes and the ends of lines, as `Zone` follows
them. A lexeme begins between strings and comments and ends there (`Zone.step`), so that a scan
goes along with the zones (`Zone.of_sound`). So the first scan of a source ends well just when
no letter is astray and no string is open at the end, and fails with the first stray letter if
there is one (`scan_finds_first_stray`). No letter beyond ASCII starts a lexeme; all of them
may stand in strings and comments.
-/

namespace LoxSyntax

open Lexeme (Belongs Digits Marks)
open Text (lineAt)

/-- Where the next letter of a text stands. -/
inductive Zone
  /-- Outside strings and comments. -/
  | code
  /-- Outside strings and comments, behind a slash that may open a comment. -/
  | slash
  | string
  | comment
deriving DecidableEq, Repr

namespace Zone

/-- Where a letter leads to. -/
def next : Zone → Char → Zone
  | code, c => if c = '"' then string else if c = '/' then slash else code
  | slash, c => if c = '"' then string else if c = '/' then comment else code
  | string, c => if c = '"' then code else string
  | comment, c => if c = '\n' then code else comment

/-- Where a text leads to. -/
def after (z : Zone) (text : List Char) : Zone :=
  text.foldl next z

/-- Whether the next letter stands outside strings and comments. -/
def IsOutside (z : Zone) : Prop :=
  z = code ∨ z = slash

theorem after_append (z : Zone) (a b : List Char) : z.after (a ++ b) = (z.after a).after b :=
  List.foldl_append

/-- A text in front of a letter that no lexeme starts with, at an offset outside strings and
comments. The text begins in the zone. -/
structure Stray (z : Zone) (text : List Char) (offset : Nat) (letter : Char) : Prop where
  stands : text[offset]? = some letter
  outside : (z.after (text.take offset)).IsOutside
  starts : ∀ k more, ¬ Belongs k (letter :: more)

/-- No letter of the text is astray. -/
def Clean (z : Zone) (text : List Char) : Prop :=
  ∀ offset letter, ¬ z.Stray text offset letter

variable {z : Zone} {text a b w : List Char} {c letter : Char} {offset : Nat}

/-! ## Strays of parts -/

theorem Stray.left (h : z.Stray (a ++ b) offset letter) (inside : offset < a.length) :
    z.Stray a offset letter where
  stands := by
    rw [← List.getElem?_append_left inside]
    exact h.stands
  outside := by
    rw [← List.take_append_of_le_length (Nat.le_of_lt inside)]
    exact h.outside
  starts := h.starts

theorem clean_append (h : z.Clean a) (h' : (z.after a).Clean b) : z.Clean (a ++ b) := by
  intro offset letter stray
  by_cases inside : offset < a.length
  · exact h _ _ (stray.left inside)
  · have past : a.length ≤ offset := Nat.le_of_not_lt inside
    refine h' (offset - a.length) letter ⟨?_, ?_, stray.starts⟩
    · rw [← List.getElem?_append_right past]
      exact stray.stands
    · rw [← after_append]
      have outside := stray.outside
      rwa [List.take_append, List.take_of_length_le past] at outside

/-- Where every letter starts some lexeme, none is astray. -/
theorem clean_of_starts (h : ∀ c ∈ w, ∃ k more, Belongs k (c :: more)) : z.Clean w := by
  intro offset letter stray
  obtain ⟨k, more, belongs⟩ := h letter (List.mem_of_getElem? stray.stands)
  exact stray.starts k more belongs

theorem not_isOutside_string : ¬ string.IsOutside := by
  rintro (same | same) <;> cases same

theorem not_isOutside_comment : ¬ comment.IsOutside := by
  rintro (same | same) <;> cases same

theorem after_string (free : '"' ∉ w) : string.after w = string := by
  induction w with
  | nil => rfl
  | cons c w ih =>
    have other : c ≠ '"' := fun same => free (same ▸ List.mem_cons_self)
    show (string.next c).after w = string
    rw [next, if_neg other, ih fun later => free (List.mem_cons_of_mem _ later)]

theorem after_comment (free : '\n' ∉ w) : comment.after w = comment := by
  induction w with
  | nil => rfl
  | cons c w ih =>
    have other : c ≠ '\n' := fun same => free (same ▸ List.mem_cons_self)
    show (comment.next c).after w = comment
    rw [next, if_neg other, ih fun later => free (List.mem_cons_of_mem _ later)]

theorem clean_string (free : '"' ∉ w) : string.Clean w := fun offset _ stray => by
  have inside := after_string fun early => free (List.mem_of_mem_take (i := offset) early)
  exact not_isOutside_string (inside ▸ stray.outside)

theorem clean_comment (free : '\n' ∉ w) : comment.Clean w := fun offset _ stray => by
  have inside := after_comment fun early => free (List.mem_of_mem_take (i := offset) early)
  exact not_isOutside_comment (inside ▸ stray.outside)

/-! ## Lexemes -/

/-- The next lexeme may begin here: not within a string, and if the zone is that of a slash or
a comment, then at its end. -/
def Between : Zone → List Char → Prop
  | code, _ => True
  | slash, tail => ∀ c ∈ tail.head?, c ≠ '/'
  | string, _ => False
  | comment, tail => ∀ c ∈ tail.head?, c = '\n'

theorem Between.isOutside (h : z.Between (c :: text)) (line : c ≠ '\n') : z.IsOutside := by
  cases z with
  | code => exact .inl rfl
  | slash => exact .inr rfl
  | string => cases h
  | comment => exact absurd (h c rfl) line

/-- Behind a lexeme that begins with a slash no slash is open. -/
theorem Between.eq_code (h : z.Between ('/' :: text)) : z = code := by
  cases z with
  | code => rfl
  | slash => exact absurd rfl (h '/' rfl)
  | string => cases h
  | comment => cases h '/' rfl

/-- The letters that open or end strings, comments and lines. -/
def delimiters : List Char :=
  ['"', '/', '\n']

/-- A row of letters of which every one starts some lexeme, and none is a delimiter. -/
structure Ordinary (w : List Char) : Prop where
  nonempty : w ≠ []
  starts : ∀ c ∈ w, ∃ k more, Belongs k (c :: more)
  plain : ∀ c ∈ w, c ∉ delimiters

theorem next_of_not_mem (outside : z.IsOutside) (plain : c ∉ delimiters) : z.next c = code := by
  have quote : c ≠ '"' := fun same => plain (same ▸ by decide)
  have slash : c ≠ '/' := fun same => plain (same ▸ by decide)
  rcases outside with rfl | rfl <;> rw [next, if_neg quote, if_neg slash]

theorem Ordinary.after (h : Ordinary w) (outside : z.IsOutside) : z.after w = code := by
  obtain ⟨nonempty, -, plain⟩ := h
  induction w generalizing z with
  | nil => exact absurd rfl nonempty
  | cons c w ih =>
    obtain ⟨first, later⟩ := List.forall_mem_cons.mp plain
    show (z.next c).after w = code
    rw [next_of_not_mem outside first]
    cases w with
    | nil => rfl
    | cons d w => exact ih (.inl rfl) nofun later

theorem starts_of_isDigit (h : c.isDigit = true) : ∃ k more, Belongs k (c :: more) :=
  ⟨.number, [], .whole ⟨nofun, List.forall_mem_singleton.mpr h⟩⟩

theorem starts_of_isAlphanum (h : c.isAlphanum = true) : ∃ k more, Belongs k (c :: more) := by
  rcases Bool.or_eq_true_iff.mp h with alpha | digit
  · exact ⟨.word, [], .word (.inl alpha) nofun⟩
  · exact starts_of_isDigit digit

theorem Ordinary.word (h : Belongs .word w) : Ordinary w := by
  have delimiter : ∀ c ∈ delimiters, ¬ (c.isAlpha = true ∨ c = '_') ∧ ¬ c.isAlphanum = true := by
    simp [delimiters]
  cases h with
  | word starts letters =>
    refine ⟨nofun, List.forall_mem_cons.mpr ⟨⟨.word, [], .word starts nofun⟩, ?_⟩,
      List.forall_mem_cons.mpr ⟨fun member => (delimiter _ member).1 starts, ?_⟩⟩
    · exact fun c member => starts_of_isAlphanum (letters c member)
    · exact fun c member among => (delimiter c among).2 (letters c member)

theorem Ordinary.digits (h : Digits w) : Ordinary w := by
  have delimiter : ∀ c ∈ delimiters, ¬ c.isDigit = true := by simp [delimiters]
  refine ⟨h.1, fun c member => starts_of_isDigit (h.2 c member), fun c member among => ?_⟩
  exact delimiter c among (h.2 c member)

theorem Ordinary.append (h : Ordinary a) (h' : Ordinary b) : Ordinary (a ++ b) where
  nonempty := List.append_ne_nil_of_left_ne_nil h.nonempty b
  starts := List.forall_mem_append.mpr ⟨h.starts, h'.starts⟩
  plain := List.forall_mem_append.mpr ⟨h.plain, h'.plain⟩

theorem Ordinary.number (h : Belongs .number w) : Ordinary w := by
  cases h with
  | whole digits => exact .digits digits
  | decimal whole fraction =>
    have dot : ('.', Kind.dot) ∈ Lexeme.singleMarks := by decide
    have point : Ordinary ['.'] :=
      ⟨nofun, List.forall_mem_singleton.mpr ⟨.mark, [], .mark (.single dot)⟩, by simp [delimiters]⟩
    exact (Ordinary.digits whole).append (point.append (.digits fraction))

/-- Of all marks only the slash is a delimiter. -/
theorem Ordinary.mark {kind : Kind} (h : Marks w kind) (slash : w ≠ ['/']) : Ordinary w := by
  have letters := h.of_all
    (p := fun mark => mark.1 ≠ ['/'] → mark.1 ≠ [] ∧ mark.1.all (!delimiters.contains ·) = true)
    (by decide)
  obtain ⟨nonempty, all⟩ := letters slash
  have plain : ∀ c ∈ w, c ∉ delimiters := by simpa using all
  refine ⟨nonempty, ?_, plain⟩
  cases h with
  | single member => exact List.forall_mem_singleton.mpr ⟨.mark, [], .mark (.single member)⟩
  | slash => exact absurd rfl slash
  | alone member => exact List.forall_mem_singleton.mpr ⟨.mark, [], .mark (.alone member)⟩
  | withEqual member =>
    have equal : ('=', Kind.equal, Kind.equalEqual) ∈ Lexeme.equalMarks := by decide
    refine List.forall_mem_cons.mpr ⟨⟨.mark, [], .mark (.alone member)⟩, ?_⟩
    exact List.forall_mem_singleton.mpr ⟨.mark, [], .mark (.alone equal)⟩

/-! ## Steps -/

/-- Along a lexeme without an error no letter is astray, and behind it the next one may begin. -/
structure Passes (z : Zone) (w tail : List Char) : Prop where
  clean : z.Clean w
  between : (z.after w).Between tail

theorem Ordinary.passes {tail : List Char} (h : Ordinary w) (between : z.Between (w ++ tail)) :
    z.Passes w tail := by
  obtain ⟨c, more, rfl⟩ := List.exists_cons_of_ne_nil h.nonempty
  have line : c ≠ '\n' := fun same => h.plain c List.mem_cons_self (same ▸ by decide)
  refine ⟨clean_of_starts h.starts, ?_⟩
  rw [h.after (Between.isOutside between line)]
  trivial

theorem clean_quote : z.Clean ['"'] :=
  clean_of_starts (List.forall_mem_singleton.mpr ⟨.string, ['"'], .string List.not_mem_nil⟩)

/-- Behind the quote that opens a string no letter of it is astray. -/
theorem clean_opened (outside : z.IsOutside) (free : '"' ∉ w) :
    z.Clean ('"' :: w) ∧ z.after ('"' :: w) = string := by
  have opened : z.after ['"'] = string := by
    rcases outside with rfl | rfl <;> rfl
  rw [← List.singleton_append]
  refine ⟨clean_append clean_quote ?_, ?_⟩
  · rw [opened]
    exact clean_string free
  · rw [after_append, opened, after_string free]

theorem Passes.blank {tail : List Char} (blank : c ∈ [' ', '\t', '\r', '\n'])
    (between : z.Between (c :: tail)) : z.Passes [c] tail := by
  refine ⟨clean_of_starts (List.forall_mem_singleton.mpr ⟨.blank, [], .blank blank⟩), ?_⟩
  have code : z.next c = code := by
    by_cases line : c = '\n'
    · subst line
      cases z with
      | string => cases between
      | _ => rfl
    · have other : ∀ c ∈ [' ', '\t', '\r', '\n'], c ≠ '\n' → c ∉ delimiters := by simp [delimiters]
      exact next_of_not_mem (between.isOutside line) (other c blank line)
  show (z.next c).Between tail
  rw [code]
  trivial

/-- A comment begins behind no open slash. -/
theorem Passes.comment {tail : List Char} (line : '\n' ∉ w) (ends : ∀ c ∈ tail.head?, c = '\n')
    (between : z.Between ('/' :: '/' :: (w ++ tail))) : z.Passes ('/' :: '/' :: w) tail := by
  obtain rfl := Between.eq_code between
  have slash : ∃ k more, Belongs k ('/' :: more) := ⟨.mark, [], .mark .slash⟩
  have inside : code.after ('/' :: '/' :: w) = comment := after_comment line
  refine ⟨clean_append (a := ['/', '/']) (clean_of_starts ?_) (clean_comment line), ?_⟩
  · exact List.forall_mem_cons.mpr ⟨slash, List.forall_mem_singleton.mpr slash⟩
  · rw [inside]
    exact ends

theorem Passes.slash {tail : List Char} (ends : ∀ c ∈ tail.head?, c ≠ '/')
    (between : z.Between ('/' :: tail)) : z.Passes ['/'] tail := by
  obtain rfl := Between.eq_code between
  exact ⟨clean_of_starts (List.forall_mem_singleton.mpr ⟨.mark, [], .mark .slash⟩), ends⟩

theorem Passes.string {tail : List Char} (free : '"' ∉ w)
    (between : z.Between ('"' :: (w ++ '"' :: tail))) : z.Passes ('"' :: w ++ ['"']) tail := by
  obtain ⟨clean, inside⟩ := clean_opened (Between.isOutside between (by decide)) free
  refine ⟨clean_append clean clean_quote, ?_⟩
  rw [after_append, inside]
  trivial

/-- A lexeme without an error, read where a lexeme may begin, leaves no letter astray and ends
where the next one may begin. -/
theorem step {l : Lexeme} {k : Lexeme.Class} {tail : List Char} (made : l.WellFormed)
    (sound : l.class? = some k) (ends : l.EndsBefore tail)
    (between : z.Between (l.spelling ++ tail)) : z.Passes l.spelling tail := by
  cases l with
  | blank letter => exact .blank made between
  | comment text => exact .comment made ends between
  | mark kind spelling =>
    by_cases slash : spelling = ['/']
    · subst slash
      exact .slash (fun c head => (ends c head).1 rfl) between
    · exact (Ordinary.mark made slash).passes between
  | string contents =>
    refine .string made ?_
    simpa [Lexeme.spelling] using between
  | number whole fraction => exact (Ordinary.number (made.belongs rfl)).passes between
  | word letters => exact (Ordinary.word made).passes between
  | unrecognized letter => cases sound
  | unclosed contents => cases sound

/-! ## Cuts -/

theorem Passes.append {tail : List Char} (h : z.Passes a (b ++ tail))
    (h' : (z.after a).Passes b tail) : z.Passes (a ++ b) tail where
  clean := clean_append h.clean h'.clean
  between := by
    rw [after_append]
    exact h'.between

/-- The lexemes of a text before the first one in error are passed one by one. -/
theorem passes_of_cut {before behind : List Lexeme} (between : z.Between text)
    (h : Lexeme.cut text = before ++ behind) (sound : ∀ m ∈ before, ∃ k, m.class? = some k) :
    z.Passes (before.flatMap Lexeme.spelling) (behind.flatMap Lexeme.spelling) := by
  refine Lexeme.cut_rows (motive := fun text row => ∀ (z : Zone) (before : List Lexeme),
    z.Between text → row = before ++ behind → (∀ m ∈ before, ∃ k, m.class? = some k) →
      z.Passes (before.flatMap Lexeme.spelling) (behind.flatMap Lexeme.spelling))
    ?_ ?_ text z before between h sound
  · intro z before between split sound
    obtain ⟨rfl, rfl⟩ := List.append_eq_nil_iff.mp split.symm
    exact ⟨nofun, between⟩
  · intro l tail readable ends ih z before between split sound
    cases before with
    | nil =>
      have whole : behind.flatMap Lexeme.spelling = l.spelling ++ tail := by
        rw [← List.nil_append behind, ← split, List.flatMap_cons, Lexeme.flatMap_spelling_cut]
      exact ⟨nofun, by rw [whole]; exact between⟩
    | cons l' before =>
      rw [List.cons_append] at split
      obtain ⟨rfl, later⟩ := List.cons.inj split
      obtain ⟨⟨k, first⟩, sound⟩ := List.forall_mem_cons.mp sound
      have passed := step readable.wellFormed first ends between
      have tailSplit := Lexeme.flatMap_spelling_cut tail
      rw [later, List.flatMap_append] at tailSplit
      rw [← tailSplit] at passed
      exact passed.append (ih _ _ (tailSplit ▸ passed.between) later sound)

/-! ## The first stray letter -/

/-- The first letter of a text that is astray. -/
structure FirstStray (text : List Char) (offset : Nat) (letter : Char) : Prop where
  stray : code.Stray text offset letter
  first : ∀ other letter', code.Stray text other letter' → offset ≤ other

theorem FirstStray.unique {offset' : Nat} {letter' : Char} (h : FirstStray text offset letter)
    (h' : FirstStray text offset' letter') : offset = offset' ∧ letter = letter' := by
  obtain rfl := Nat.le_antisymm (h.first _ _ h'.stray) (h'.first _ _ h.stray)
  exact ⟨rfl, Option.some.inj (h.stray.stands.symm.trans h'.stray.stands)⟩

/-- A text with a stray letter has a first one. -/
theorem Stray.exists_first (h : code.Stray text offset letter) :
    ∃ first found, FirstStray text first found ∧ first ≤ offset := by
  induction offset using Nat.strongRecOn generalizing letter with
  | ind offset ih =>
    by_cases earlier : ∃ other letter', code.Stray text other letter' ∧ other < offset
    · obtain ⟨other, letter', stray, before⟩ := earlier
      obtain ⟨first, found, isFirst, le⟩ := ih other before stray
      exact ⟨first, found, isFirst, Nat.le_trans le (Nat.le_of_lt before)⟩
    · refine ⟨offset, letter, ⟨h, fun other letter' stray => ?_⟩, Nat.le_refl offset⟩
      exact Nat.le_of_not_lt fun before => earlier ⟨other, letter', stray, before⟩

end Zone

/-! ## Scans -/

namespace TokenStream

open Zone (FirstStray)

variable {source : String} {line : Int}

/-- A scan that does not fail has met no stray letter and no open string. -/
theorem clean_of_scan_ok (h : (ofSource source).scan.2 = .ok ()) :
    Zone.code.Clean source.toList ∧ Zone.code.after source.toList ≠ .string := by
  have sound := class?_of_readAll_ok h
  have whole : Lexeme.cut source.toList = Lexeme.cut source.toList ++ [] :=
    (List.append_nil _).symm
  have passed := Zone.passes_of_cut (z := .code) trivial whole sound
  rw [Lexeme.flatMap_spelling_cut] at passed
  refine ⟨passed.clean, fun inside => ?_⟩
  have between := passed.between
  rw [inside] at between
  exact between

/-- The letter that a scan stops at is the first one astray. -/
theorem exists_firstStray_of_scan_error {letter : Char}
    (h : (ofSource source).scan.2 = .error (.unrecognized letter line)) :
    ∃ offset, FirstStray source.toList offset letter ∧ line = lineAt source.toList offset := by
  have begun : Reached source (ofSource source) := .start
  obtain ⟨place, stop, lineAtPlace⟩ : ∃ place,
      (ofSource source).scan.1.position = place + 1 ∧ line = lineAt source.toList place := by
    cases begun.error_standsAt h with
    | unrecognized _ stop => exact ⟨_, stop, rfl⟩
  obtain ⟨before, l, sound, history, wrong⟩ := exists_history_of_scan_error h
  have cut := history.cut
  rw [← List.append_cons] at cut
  have position := history.position
  cases l with
  | unrecognized letter' =>
    cases wrong
    have member : .unrecognized letter ∈ Lexeme.cut source.toList := by simp [cut]
    have passed := Zone.passes_of_cut (z := .code) trivial cut sound
    have whole := Lexeme.flatMap_spelling_cut source.toList
    rw [cut, List.flatMap_append] at whole
    have outside := Zone.Between.isOutside passed.between
      (Lexeme.ne_lineFeed_of_unrecognized_mem_cut member)
    refine ⟨(before.flatMap Lexeme.spelling).length, ⟨⟨?_, ?_, ?_⟩, ?_⟩, ?_⟩
    · rw [← whole]
      simp [Lexeme.spelling]
    · rw [← whole, List.take_left]
      exact outside
    · exact (Lexeme.readable_of_mem_cut member).not_belongs
    · intro other letter' stray
      rw [← whole] at stray
      exact Nat.le_of_not_lt fun inside => passed.clean _ _ (stray.left inside)
    · have one : ([Lexeme.unrecognized letter].flatMap Lexeme.spelling).length = 1 := rfl
      rw [List.flatMap_append, List.length_append, one, stop] at position
      rw [lineAtPlace, Nat.succ_inj.mp position]
  | _ => cases wrong

/-- The string that a scan stops at is open at the end, and no letter is astray. -/
theorem clean_of_scan_unclosed (h : (ofSource source).scan.2 = .error (.unclosedString line)) :
    Zone.code.Clean source.toList ∧ Zone.code.after source.toList = .string ∧
      line = lineAt source.toList source.toList.length := by
  have begun : Reached source (ofSource source) := .start
  have last : line = lineAt source.toList source.toList.length := by
    cases begun.error_standsAt h with
    | unclosedString _ => rw [Text.lineAt_length]
  obtain ⟨before, l, sound, history, wrong⟩ := exists_history_of_scan_error h
  have cut := history.cut
  rw [← List.append_cons] at cut
  cases l with
  | unclosed contents =>
    have readable := Lexeme.readable_of_mem_cut (l := .unclosed contents) (by rw [cut]; simp)
    have passed := Zone.passes_of_cut (z := .code) trivial cut sound
    have whole := Lexeme.flatMap_spelling_cut source.toList
    rw [Lexeme.nil_of_cut_eq_unclosed cut] at cut
    rw [cut, List.flatMap_append, List.flatMap_singleton] at whole
    have outside := Zone.Between.isOutside passed.between (by decide)
    obtain ⟨clean, inside⟩ := Zone.clean_opened outside readable.quote_not_mem
    refine ⟨?_, ?_, last⟩
    · rw [← whole]
      exact Zone.clean_append passed.clean clean
    · rw [← whole, Zone.after_append]
      exact inside
  | _ => cases wrong

end TokenStream

/-- No letter beyond ASCII starts a lexeme. -/
theorem Lexeme.Belongs.toNat_le {k : Lexeme.Class} {c : Char} {more : List Char}
    (h : Belongs k (c :: more)) : c.toNat ≤ 0x7F := by
  have digit {c : Char} (h : c.isDigit = true) : c.toNat ≤ 0x7F :=
    Nat.le_trans (Text.toNat_of_isDigit h).2 (by decide)
  generalize split : c :: more = w at h
  have head : w.head? = some c := by rw [← split]; rfl
  cases h with
  | blank blank =>
    have blanks : ∀ c ∈ [' ', '\t', '\r', '\n'], c.toNat ≤ 0x7F := by simp
    cases head
    exact blanks _ blank
  | comment _ =>
    cases head
    decide
  | mark mark =>
    have all := mark.of_all (p := fun mark => mark.1.all (·.toNat ≤ 0x7F) = true) (by decide)
    have marks : ∀ c ∈ w, c.toNat ≤ 0x7F := by simpa using all
    exact marks c (List.mem_of_mem_head? head)
  | string _ =>
    cases head
    decide
  | whole digits => exact digit (digits.2 c (List.mem_of_mem_head? head))
  | decimal digits _ =>
    rw [List.head?_append_of_ne_nil _ digits.1] at head
    exact digit (digits.2 c (List.mem_of_mem_head? head))
  | word starts _ =>
    cases head
    rcases starts with alpha | rfl
    · rcases Bool.or_eq_true_iff.mp alpha with upper | lower
      · have le : c.val ≤ 'Z'.val := (of_decide_eq_true upper).2
        exact Nat.le_trans (UInt32.le_iff_toNat_le.mp le) (by decide)
      · have le : c.val ≤ 'z'.val := of_decide_eq_true (Bool.and_eq_true_iff.mp lower).2
        exact Nat.le_trans (UInt32.le_iff_toNat_le.mp le) (by decide)
    · decide

/-- How a scan of a text ends. -/
inductive Zone.Verdict (text : List Char) : Except LexicalError Unit → Prop
  /-- No letter is astray, and no string is open at the end. -/
  | ok : code.Clean text → code.after text ≠ .string → Verdict text (.ok ())
  | firstStray {offset : Nat} {letter : Char} : FirstStray text offset letter →
    Verdict text (.error (.unrecognized letter (lineAt text offset)))
  /-- No letter is astray, but a string is open at the end. -/
  | unclosed : code.Clean text → code.after text = .string →
    Verdict text (.error (.unclosedString (lineAt text text.length)))

theorem Zone.Verdict.unique {text : List Char} {outcome outcome' : Except LexicalError Unit}
    (h : Verdict text outcome) (h' : Verdict text outcome') : outcome = outcome' := by
  cases h with
  | ok clean closed =>
    cases h' with
    | ok _ _ => rfl
    | firstStray isFirst => exact absurd isFirst.stray (clean _ _)
    | unclosed _ inside => exact absurd inside closed
  | firstStray isFirst =>
    cases h' with
    | ok clean _ => exact absurd isFirst.stray (clean _ _)
    | firstStray isFirst' =>
      obtain ⟨rfl, rfl⟩ := isFirst.unique isFirst'
      rfl
    | unclosed clean _ => exact absurd isFirst.stray (clean _ _)
  | unclosed clean inside =>
    cases h' with
    | ok _ closed => exact absurd inside closed
    | firstStray isFirst => exact absurd isFirst.stray (clean _ _)
    | unclosed _ _ => rfl

theorem TokenStream.scan_verdict (source : String) :
    Zone.Verdict source.toList (ofSource source).scan.2 := by
  cases outcome : (ofSource source).scan.2 with
  | ok done =>
    obtain ⟨clean, closed⟩ := clean_of_scan_ok outcome
    exact .ok clean closed
  | error e =>
    cases e with
    | unrecognized letter line =>
      obtain ⟨offset, isFirst, rfl⟩ := exists_firstStray_of_scan_error outcome
      exact .firstStray isFirst
    | unclosedString line =>
      obtain ⟨clean, inside, rfl⟩ := clean_of_scan_unclosed outcome
      exact .unclosed clean inside

/-- The first scan of a source goes along with its strings and comments: it ends well just when
no letter is astray outside them and no string is open at the end, it reports an open string
just when no letter is astray, and otherwise the first stray letter. A letter beyond ASCII that
stands outside strings and comments is astray, so that it or an earlier one is reported. -/
theorem scan_finds_first_stray (source : String) :
    (∀ outcome, (TokenStream.ofSource source).scan.2 = outcome ↔
      Zone.Verdict source.toList outcome) ∧
    ∀ offset letter, source.toList[offset]? = some letter → 0x7F < letter.toNat →
      (Zone.code.after (source.toList.take offset)).IsOutside →
      ∃ first found, Zone.FirstStray source.toList first found ∧ first ≤ offset ∧
        (TokenStream.ofSource source).scan.2 =
          .error (.unrecognized found (lineAt source.toList first)) := by
  have verdict := TokenStream.scan_verdict source
  refine ⟨fun outcome => ⟨fun same => same ▸ verdict, verdict.unique⟩, ?_⟩
  intro offset letter stands beyond outside
  have stray : Zone.code.Stray source.toList offset letter :=
    ⟨stands, outside, fun k more belongs => absurd belongs.toNat_le (Nat.not_le.mpr beyond)⟩
  obtain ⟨first, found, isFirst, before⟩ := stray.exists_first
  exact ⟨first, found, isFirst, before, verdict.unique (.firstStray isFirst)⟩

/-- The letter behind a string is reported, and not the same letter within the string. -/
theorem scan_finds_first_stray_behind :
    let source := "\"é\" é"
    source.toList[1]? = some 'é' ∧ Zone.code.after (source.toList.take 1) = .string ∧
      source.toList[4]? = some 'é' ∧ (Zone.code.after (source.toList.take 4)).IsOutside ∧
      (∃ first found, Zone.FirstStray source.toList first found ∧ first ≤ 4 ∧
        (TokenStream.ofSource source).scan.2 =
          .error (.unrecognized found (lineAt source.toList first))) ∧
      (TokenStream.ofSource source).scan.2 = .error (.unrecognized 'é' 1) := by
  intro source
  have stands : source.toList[4]? = some 'é' := by decide
  have outside : (Zone.code.after (source.toList.take 4)).IsOutside := .inl (by decide)
  refine ⟨by decide, by decide, stands, outside, ?_, by decide +kernel⟩
  exact (scan_finds_first_stray source).2 4 'é' stands (by decide) outside

/-- Letters beyond ASCII within a string and within a comment are accepted. -/
theorem scan_accepts_beyond_ascii :
    (TokenStream.ofSource "\"é\"").scan.2 = .ok () ∧
      (TokenStream.ofSource "1 // é").scan.2 = .ok () ∧
      ¬ ∀ source : String, (∃ letter ∈ source.toList, 0x7F < letter.toNat) →
        ∃ e, (TokenStream.ofSource source).scan.2 = .error e := by
  have accepted : (TokenStream.ofSource "\"é\"").scan.2 = .ok () := by decide +kernel
  refine ⟨accepted, by decide +kernel, fun always => ?_⟩
  obtain ⟨e, failed⟩ := always "\"é\"" ⟨'é', by decide, by decide⟩
  cases accepted.symm.trans failed

end LoxSyntax
