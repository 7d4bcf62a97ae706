import Mathlib.Data.List.TakeWhile
import LoxSyntax.Proofs.TokenStream.GoodPrefix
import LoxSyntax.Proofs.Token.Text

/-!
# Line ends of two letters

A source may end its lines with a carriage return and a line feed (`Text.endLinesWith`). The
carriage return then is a blank of its own, the last letter of a comment or part of a string,
wherever a lexeme of the source stood in front of the line feed, and no other lexeme is cut
differently (`Lexeme.recut_endLinesWith`). Lines are counted by line feeds alone, so a scan finds
the same tokens on the same lines but for the line ends within strings, and it fails in the
same way (`TokenStream.scan_endLinesWith`).
-/

namespace LoxSyntax

open Text (lineFeeds)

/-! ## Line ends of a text -/

namespace Text

/-- A carriage return and a line feed. -/
abbrev crlf : List Char :=
  ['\r', '\n']

/-- The text with `ending` for every line feed. -/
def endLinesWith (ending : List Char) (text : List Char) : List Char :=
  text.flatMap fun c => if c = '\n' then ending else [c]

/-- The text with a line feed for every carriage return that a line feed follows, and that
line feed. -/
def joinLineEnds : List Char → List Char
  | [] => []
  | '\r' :: '\n' :: rest => '\n' :: joinLineEnds rest
  | c :: rest => c :: joinLineEnds rest

section

variable {ending : List Char}

theorem endLinesWith_cons_lineFeed (ending text : List Char) :
    endLinesWith ending ('\n' :: text) = ending ++ endLinesWith ending text := by
  rw [endLinesWith, List.flatMap_cons, if_pos rfl]
  rfl

theorem endLinesWith_crlf_lineFeed (text : List Char) :
    endLinesWith crlf ('\n' :: text) = '\r' :: '\n' :: endLinesWith crlf text :=
  endLinesWith_cons_lineFeed crlf text

theorem endLinesWith_cons_of_ne {c : Char} (h : c ≠ '\n') (text : List Char) :
    endLinesWith ending (c :: text) = c :: endLinesWith ending text := by
  rw [endLinesWith, List.flatMap_cons, if_neg h]
  rfl

theorem endLinesWith_append (ending a b : List Char) :
    endLinesWith ending (a ++ b) = endLinesWith ending a ++ endLinesWith ending b :=
  List.flatMap_append

/-- A text of one line stays as it is. -/
theorem endLinesWith_eq_self {text : List Char} (h : '\n' ∉ text) :
    endLinesWith ending text = text := by
  induction text with
  | nil => rfl
  | cons c text ih =>
    have other : c ≠ '\n' := fun same => h (same ▸ List.mem_cons_self)
    rw [endLinesWith_cons_of_ne other, ih fun later => h (List.mem_cons_of_mem c later)]

/-- Behind line ends that start with a carriage return no text starts with a line feed. -/
theorem head?_endLinesWith_ne (rest text : List Char) :
    (endLinesWith ('\r' :: rest) text).head? ≠ some '\n' := by
  cases text with
  | nil => exact nofun
  | cons c text =>
    by_cases feed : c = '\n'
    · rw [feed, endLinesWith_cons_lineFeed]
      intro same
      cases same
    · rw [endLinesWith_cons_of_ne feed]
      intro same
      exact feed (Option.some.inj same)

theorem joinLineEnds_cons {c : Char} {text : List Char} (h : text.head? ≠ some '\n') :
    joinLineEnds (c :: text) = c :: joinLineEnds text := by
  rw [joinLineEnds]
  rintro rest - rfl
  exact h rfl

/-- Joined line ends are those that there were. -/
theorem joinLineEnds_endLinesWith (text : List Char) :
    joinLineEnds (endLinesWith crlf text) = text := by
  induction text with
  | nil => rfl
  | cons c text ih =>
    by_cases feed : c = '\n'
    · rw [feed, endLinesWith_crlf_lineFeed, joinLineEnds, ih]
    · rw [endLinesWith_cons_of_ne feed, joinLineEnds_cons (head?_endLinesWith_ne _ text), ih]

theorem lineFeeds_endLinesWith (text : List Char) :
    lineFeeds (endLinesWith crlf text) = lineFeeds text := by
  induction text with
  | nil => rfl
  | cons c text ih =>
    by_cases feed : c = '\n'
    · rw [feed, endLinesWith_cons_lineFeed, lineFeeds_append, ih]
      unfold lineFeeds
      rw [List.count_cons_self, Nat.add_comm]
      rfl
    · rw [endLinesWith_cons_of_ne feed]
      unfold lineFeeds at ih ⊢
      rw [List.count_cons_of_ne feed, List.count_cons_of_ne feed, ih]

theorem mem_of_mem_endLinesWith {c : Char} {text : List Char}
    (h : c ∈ endLinesWith ending text) : c ∈ text ∨ c ∈ ending := by
  obtain ⟨d, member, among⟩ := List.mem_flatMap.mp h
  split at among
  · exact .inr among
  · exact .inl (List.mem_singleton.mp among ▸ member)

end

end Text

open Text (crlf endLinesWith joinLineEnds)

/-! ## Lexemes -/

namespace Lexeme

/-- The lexeme with line ends of two letters in the text of a string. -/
def widened : Lexeme → Lexeme
  | .string contents => .string (endLinesWith crlf contents)
  | .unclosed contents => .unclosed (endLinesWith crlf contents)
  | l => l

theorem spelling_widened_string (contents : List Char) :
    (string (endLinesWith crlf contents)).spelling =
      endLinesWith crlf (string contents).spelling := by
  show '"' :: (_ ++ ['"']) = endLinesWith crlf ('"' :: (contents ++ ['"']))
  rw [Text.endLinesWith_cons_of_ne (by decide), Text.endLinesWith_append]
  rfl

theorem spelling_widened_unclosed (contents : List Char) :
    (unclosed (endLinesWith crlf contents)).spelling =
      endLinesWith crlf (unclosed contents).spelling :=
  (Text.endLinesWith_cons_of_ne (by decide) contents).symm

/-- `Recut row row'`: two texts that differ by line ends of two letters are cut into these rows.
A comment takes the carriage return in front of the line feed that ends it; elsewhere it is a
blank. -/
inductive Recut : List Lexeme → List Lexeme → Prop
  | nil : Recut [] []
  | comment {text : List Char} {rest rest' : List Lexeme} : Recut rest rest' →
    Recut (.comment text :: .blank '\n' :: rest) (.comment (text ++ ['\r']) :: .blank '\n' :: rest')
  | lineFeed {rest rest' : List Lexeme} : Recut rest rest' →
    Recut (.blank '\n' :: rest) (.blank '\r' :: .blank '\n' :: rest')
  | other {l : Lexeme} {rest rest' : List Lexeme} : l ≠ .blank '\n' → Recut rest rest' →
    Recut (l :: rest) (l.widened :: rest')

/-- A lexeme without an error that is neither blank nor a comment nor a string is on one line. -/
theorem WellFormed.lineFeed_not_mem {l : Lexeme} (h : l.WellFormed)
    (some : l.class? = some .mark ∨ l.class? = some .number ∨ l.class? = some .word) :
    '\n' ∉ l.spelling := by
  rcases some with mark | number | word
  · exact (h.belongs mark).lineFeed_not_mem nofun nofun
  · exact (h.belongs number).lineFeed_not_mem nofun nofun
  · exact (h.belongs word).lineFeed_not_mem nofun nofun

theorem fractionDigits_endLinesWith {c : Char} {tail : List Char}
    (h : fractionDigits (c :: tail) = []) :
    fractionDigits (c :: endLinesWith crlf tail) = [] := by
  refine fractionDigits_eq_nil_of_prefix h fun d digit ahead => ?_
  obtain ⟨rfl, next⟩ := List.cons_prefix_cons.mp ahead
  cases tail with
  | nil => cases List.prefix_nil.mp next
  | cons c tail =>
    by_cases feed : c = '\n'
    · rw [feed, Text.endLinesWith_cons_lineFeed] at next
      obtain ⟨rfl, -⟩ := List.cons_prefix_cons.mp next
      cases digit
    · rw [Text.endLinesWith_cons_of_ne feed] at next
      obtain ⟨rfl, -⟩ := List.cons_prefix_cons.mp next
      exact ⟨tail, rfl⟩

/-- A carriage return in front of line feeds prolongs no lexeme but a comment. -/
theorem EndsBefore.endLinesWith {l : Lexeme} {tail : List Char} (h : l.EndsBefore tail)
    (other : ∀ text, l ≠ .comment text) : l.EndsBefore (endLinesWith crlf tail) := by
  cases tail with
  | nil => exact endsBefore_nil l
  | cons c tail =>
    by_cases feed : c = '\n'
    · rw [feed, Text.endLinesWith_cons_lineFeed]
      refine endsBefore_blank rfl (fun contents same => ?_) (fun text same => ?_) _
      · subst same
        cases h
      · exact absurd same (other text)
    · rw [Text.endLinesWith_cons_of_ne feed]
      cases l with
      | comment text => exact absurd rfl (other text)
      | unclosed contents => cases h
      | number whole fraction =>
        exact ⟨h.1, fun none => fractionDigits_endLinesWith (h.2 none)⟩
      | _ => exact h

/-- A string that is not closed is read from every text without a quote. -/
theorem readable_unclosed {contents : List Char} (h : '"' ∉ contents) :
    Readable (.unclosed contents) := by
  have inside : ∀ c ∈ contents, (c != '"') = true := fun c member =>
    bne_iff_ne.mpr fun same => h (same ▸ member)
  have dropped : contents.dropWhile (· != '"') = [] := List.dropWhile_eq_nil_iff.mpr inside
  have taken : contents.takeWhile (· != '"') = contents := List.takeWhile_eq_self_iff.mpr inside
  refine ⟨'"', contents, rfl, ?_⟩
  rw [read_quote, readString, dropped, taken]

theorem quote_not_mem_endLinesWith {contents : List Char} (h : '"' ∉ contents) :
    '"' ∉ endLinesWith crlf contents := by
  intro member
  rcases Text.mem_of_mem_endLinesWith member with inside | ending
  · exact h inside
  · revert ending
    decide

/-- A lexeme on one line is cut off from the text with line ends of two letters as well. -/
theorem Readable.cut_oneLine {l : Lexeme} {tail : List Char} (h : l.Readable)
    (line : '\n' ∉ l.spelling) (ends : l.EndsBefore tail) (other : ∀ text, l ≠ .comment text) :
    cut (endLinesWith crlf (l.spelling ++ tail)) = l :: cut (endLinesWith crlf tail) := by
  rw [Text.endLinesWith_append, Text.endLinesWith_eq_self line,
    h.cut_append (ends.endLinesWith other)]

/-- A comment takes the carriage return in front of the line feed that ends it. -/
theorem cut_comment_endLinesWith {text : List Char} (line : '\n' ∉ text) (tail : List Char) :
    cut (endLinesWith crlf ((comment text).spelling ++ '\n' :: tail)) =
      .comment (text ++ ['\r']) :: .blank '\n' :: cut (endLinesWith crlf tail) := by
  have longer : (comment (text ++ ['\r'])).WellFormed := by
    show '\n' ∉ text ++ ['\r']
    simpa using line
  have spelled : endLinesWith crlf ((comment text).spelling ++ '\n' :: tail) =
      (comment (text ++ ['\r'])).spelling ++ '\n' :: endLinesWith crlf tail := by
    rw [Text.endLinesWith_append, Text.endLinesWith_eq_self (by simpa [spelling] using line)]
    simp [spelling, Text.endLinesWith_crlf_lineFeed]
  have ends : (comment (text ++ ['\r'])).EndsBefore ('\n' :: endLinesWith crlf tail) :=
    endsBefore_blank rfl (by simp) (fun _ _ => rfl) _
  rw [spelled, (longer.readable rfl).cut_append ends, cut_blank rfl]

/-- A text with line ends of two letters is cut where it was cut, but for the carriage
returns. -/
theorem recut_endLinesWith (text : List Char) :
    Recut (cut text) (cut (endLinesWith crlf text)) := by
  refine cut_rows (motive := fun text row => Recut row (cut (endLinesWith crlf text))) .nil ?_ text
  intro l tail readable ends ih
  have made := readable.wellFormed
  cases l with
  | blank letter =>
    by_cases feed : letter = '\n'
    · subst feed
      rw [spelling, List.singleton_append, Text.endLinesWith_crlf_lineFeed, cut_blank rfl,
        cut_blank rfl]
      exact .lineFeed ih
    · have line : '\n' ∉ (blank letter).spelling := by simpa [spelling] using Ne.symm feed
      rw [readable.cut_oneLine line ends (by simp)]
      exact .other (fun same => feed (Lexeme.blank.inj same)) ih
  | comment text =>
    cases tail with
    | nil =>
      have line : '\n' ∉ (comment text).spelling := by
        have line : '\n' ∉ text := made
        simpa [spelling] using line
      rw [List.append_nil, Text.endLinesWith_eq_self line, readable.cut_spelling]
      exact .other (by simp) .nil
    | cons c tail =>
      obtain rfl : c = '\n' := ends c rfl
      rw [Text.endLinesWith_crlf_lineFeed, cut_blank rfl, cut_blank rfl, cut_blank rfl] at ih
      rw [cut_comment_endLinesWith made, cut_blank rfl]
      cases ih with
      | lineFeed behind => exact .comment behind
  | string contents =>
    have widened : Readable (.string (endLinesWith crlf contents)) :=
      WellFormed.readable (k := .string) (quote_not_mem_endLinesWith made) rfl
    rw [Text.endLinesWith_append, ← spelling_widened_string, widened.cut_append trivial]
    exact .other (by simp) ih
  | unclosed contents =>
    obtain rfl : tail = [] := ends
    have widened : Readable (.unclosed (endLinesWith crlf contents)) :=
      readable_unclosed (quote_not_mem_endLinesWith readable.quote_not_mem)
    rw [List.append_nil, ← spelling_widened_unclosed, widened.cut_spelling]
    exact .other (by simp) .nil
  | unrecognized letter =>
    have line : '\n' ∉ (unrecognized letter).spelling := by
      intro member
      obtain ⟨first, more, spelled, reading⟩ := readable
      obtain ⟨rfl, rfl⟩ := List.cons.inj spelled
      obtain rfl := List.mem_singleton.mp member
      cases reading
    rw [readable.cut_oneLine line ends (by simp)]
    exact .other (by simp) ih
  | mark kind spelling =>
    rw [readable.cut_oneLine (made.lineFeed_not_mem (.inl rfl)) ends (by simp)]
    exact .other (by simp) ih
  | number whole fraction =>
    rw [readable.cut_oneLine (made.lineFeed_not_mem (.inr (.inl rfl))) ends (by simp)]
    exact .other (by simp) ih
  | word letters =>
    rw [readable.cut_oneLine (made.lineFeed_not_mem (.inr (.inr rfl))) ends (by simp)]
    exact .other (by simp) ih

end Lexeme

/-! ### What they stand for -/

/-- The value with its text changed, if it is a text. -/
def Value.mapText (f : List Char → List Char) : Value → Value
  | .text s => .text (String.ofList (f s.toList))
  | v => v

/-- A string token with its spelling and its value changed; any other token as it is. -/
def Token.mapText (f : List Char → List Char) (t : Token) : Token :=
  if t.kind = .string then
    { t with lexeme := String.ofList (f t.lexeme.toList), value := t.value.mapText f }
  else t

theorem Token.mapText_of_ne {t : Token} (h : t.kind ≠ .string) (f : List Char → List Char) :
    t.mapText f = t :=
  if_neg h

theorem Token.mapText_string (f : List Char → List Char) (lexeme contents : String) (line : Int) :
    Token.mapText f ⟨.string, lexeme, .text contents, line⟩ =
      ⟨.string, String.ofList (f lexeme.toList), .text (String.ofList (f contents.toList)), line⟩ :=
  rfl

/-- A change of strings that another one undoes is undone in every token. -/
theorem Token.mapText_mapText {f g : List Char → List Char} (undo : ∀ text, g (f text) = text)
    (t : Token) : (t.mapText f).mapText g = t := by
  obtain ⟨kind, lexeme, value, line⟩ := t
  by_cases string : kind = .string
  · subst string
    cases value <;> simp [Token.mapText, Value.mapText, undo]
  · rw [mapText_of_ne (t := ⟨kind, lexeme, value, line⟩) string, mapText_of_ne string]

namespace Lexeme

/-- Both lexemes take the same lines, have the same error, and stand for the same token but for
the line ends in a string. -/
structure Alike (l l' : Lexeme) : Prop where
  lines : lineFeeds l'.spelling = lineFeeds l.spelling
  token : ∀ line, l'.token? line = (l.token? line).map (Token.mapText (endLinesWith crlf))
  error : ∀ line, l'.error? line = l.error? line

/-- What stands for no string token stands for the same token by itself. -/
theorem alike_self {l : Lexeme} (h : ∀ meaning ∈ l.meaning?, meaning.1 ≠ .string) :
    Alike l l := by
  refine ⟨rfl, fun line => ?_, fun _ => rfl⟩
  unfold token?
  cases found : l.meaning? with
  | none => rfl
  | some meaning => exact congrArg some (Token.mapText_of_ne (h meaning found) _).symm

/-- Line ends of two letters within a lexeme change the text of a string only. -/
theorem WellFormed.alike_widened {l : Lexeme} (h : l.WellFormed) : Alike l l.widened := by
  cases l with
  | string contents =>
    have spelled : (Lexeme.string (endLinesWith crlf contents)).spelling =
        endLinesWith crlf (Lexeme.string contents).spelling := spelling_widened_string contents
    refine ⟨?_, fun line => ?_, fun _ => rfl⟩
    · rw [widened, spelled, Text.lineFeeds_endLinesWith]
    · simp [widened, token?, meaning?, Token.mapText_string, spelled]
  | unclosed contents =>
    refine ⟨?_, fun _ => rfl, fun _ => rfl⟩
    rw [widened, spelling_widened_unclosed, Text.lineFeeds_endLinesWith]
  | mark kind spelling =>
    refine alike_self fun meaning found => ?_
    cases found
    exact h.of_all (p := fun mark => mark.2 ≠ .string) (by decide)
  | number whole fraction =>
    refine alike_self fun meaning found => ?_
    cases found
    intro same
    cases same
  | word letters =>
    refine alike_self fun meaning found => ?_
    cases found
    unfold wordMeaning
    split <;> intro same <;> cases same
  | _ => exact alike_self (by simp [meaning?])

/-- A carriage return at the end of a comment makes no difference. -/
theorem alike_comment (text : List Char) : Alike (.comment text) (.comment (text ++ ['\r'])) := by
  refine ⟨?_, fun _ => rfl, fun _ => rfl⟩
  simp [spelling, lineFeeds]

end Lexeme

/-! ## Scans -/

namespace TokenStream

/-- Both streams are on the same line and have the same tokens, but for the line ends in
strings. -/
structure Widened (s s' : TokenStream) : Prop where
  line : s'.line = s.line
  tokens : s'.tokens.toList = s.tokens.toList.map (Token.mapText (endLinesWith crlf))

/-- Two rows of lexemes are read alike: streams on the same line with the same tokens come to
the same line, the same tokens and the same error. -/
def ReadAlike (row row' : List Lexeme) : Prop :=
  ∀ s s', Widened s s' →
    Widened (s.readAll row).1 (s'.readAll row').1 ∧ (s'.readAll row').2 = (s.readAll row).2

variable {row row' : List Lexeme}

theorem Widened.accept {s s' : TokenStream} (h : Widened s s') {l l' : Lexeme}
    (alike : l.Alike l') (rest rest' : List Lexeme) :
    Widened (s.accept l rest) (s'.accept l' rest') := by
  have line : s'.line + lineFeeds l'.spelling = s.line + lineFeeds l.spelling := by
    rw [h.line, alike.lines]
  refine ⟨line, ?_⟩
  rw [tokens_accept, tokens_accept, line, alike.token, h.tokens, List.map_append]
  cases l.token? (s.line + lineFeeds l.spelling) <;> rfl

theorem ReadAlike.cons {l l' : Lexeme} (alike : l.Alike l') (h : ReadAlike row row') :
    ReadAlike (l :: row) (l' :: row') := by
  intro s s' same
  have next := same.accept alike row row'
  have error : l'.error? (s'.accept l' row').line = l.error? (s.accept l row).line := by
    rw [next.line, alike.error]
  cases wrong : l.error? (s.accept l row).line with
  | none =>
    rw [readAll_of_no_error wrong, readAll_of_no_error (error.trans wrong)]
    exact h _ _ next
  | some e =>
    rw [readAll_of_error wrong, readAll_of_error (error.trans wrong)]
    exact ⟨next, rfl⟩

/-- A carriage return of its own changes neither line nor tokens. -/
theorem ReadAlike.carriageReturn (h : ReadAlike row row') :
    ReadAlike row (.blank '\r' :: row') := by
  intro s s' same
  have next : Widened s (s'.accept (.blank '\r') row') :=
    ⟨(Int.add_zero _).trans same.line, same.tokens⟩
  rw [readAll_of_no_error rfl]
  exact h _ _ next

/-- Rows that differ by line ends of two letters are read alike. -/
theorem readAlike_of_recut (h : Lexeme.Recut row row') (made : ∀ l ∈ row, l.WellFormed) :
    ReadAlike row row' := by
  have lineFeed : (Lexeme.blank '\n').Alike (.blank '\n') :=
    Lexeme.alike_self (by simp [Lexeme.meaning?])
  induction h with
  | nil => exact fun _ _ same => ⟨same, rfl⟩
  | comment _ ih =>
    obtain ⟨-, -, later⟩ := List.forall_mem_cons.mp made |>.imp_right List.forall_mem_cons.mp
    exact .cons (Lexeme.alike_comment _) (.cons lineFeed (ih later))
  | lineFeed _ ih =>
    exact .carriageReturn (.cons lineFeed (ih (List.forall_mem_cons.mp made).2))
  | other _ _ ih =>
    obtain ⟨first, later⟩ := List.forall_mem_cons.mp made
    exact .cons first.alike_widened (ih later)

/-- With line ends of two letters a scan ends as it does without them, and it finds the same
tokens but for the line ends in strings. -/
theorem scan_endLinesWith (source : String) :
    let one := (ofSource source).scan
    let two := (ofSource (String.ofList (endLinesWith crlf source.toList))).scan
    two.2 = one.2 ∧
      two.1.tokens.toList.map (Token.mapText joinLineEnds) = one.1.tokens.toList := by
  intro one two
  have recut := Lexeme.recut_endLinesWith source.toList
  have alike := readAlike_of_recut recut fun l => Lexeme.wellFormed_of_mem_cut
  have start : Widened (ofSource source)
      (ofSource (String.ofList (endLinesWith crlf source.toList))) := ⟨rfl, rfl⟩
  obtain ⟨same, outcome⟩ := alike _ _ start
  have read : two = _ := scan_ofList _
  rw [read]
  refine ⟨outcome, ?_⟩
  rw [same.tokens, List.map_map]
  exact List.map_id'' (Token.mapText_mapText Text.joinLineEnds_endLinesWith) _

end TokenStream

end LoxSyntax
