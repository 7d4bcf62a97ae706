import LoxSyntax.Proofs.Lexeme.Boundary
import LoxSyntax.Proofs.Token.Text

/-!
# Texts that render tokens

A text renders a row of tokens when it is cut into lexemes without an error and those that
stand for tokens stand for them, but for their lines (`Renders`). A scan of the text then
finds these tokens (`tokenize_of_renders`), and what it finds is rendered
(`renders_of_tokenize`). A rendering is put together from behind: in front of one may stand
the text of a scanned token, where a blank or a parenthesis ends it (`Renders.token`), a mark
that nothing prolongs, a blank, and a comment.
-/

namespace LoxSyntax

/-- The token less its line. -/
def Token.unlined (t : Token) : Token :=
  { t with line := 0 }

/-- The text is cut into lexemes without an error, and they stand for the tokens, but for the
lines. -/
structure Renders (text : List Char) (ts : List Token) : Prop where
  sound : ∀ l ∈ Lexeme.cut text, ∃ k, l.class? = some k
  tokens : (Lexeme.cut text).filterMap (Lexeme.token? 0) = ts.map Token.unlined

namespace Lexeme

theorem class?_of_meaning? {l : Lexeme} (h : l.meaning? ≠ none) : ∃ k, l.class? = some k := by
  cases l with
  | unrecognized _ => exact absurd rfl h
  | unclosed _ => exact absurd rfl h
  | _ => exact ⟨_, rfl⟩

/-- But for the line a lexeme stands for the same token wherever it ends. -/
theorem unlined_token? (line : Int) (l : Lexeme) :
    (l.token? line).map Token.unlined = l.token? 0 := by
  unfold token?
  rw [Option.map_map]
  rfl

/-- But for the lines the lexemes of a row stand for the same tokens at any places. -/
theorem unlined_filterMap_place (text : List Char) (start : Nat) (row : List Lexeme) :
    ((place start row).filterMap fun p => p.token? text).map Token.unlined =
      row.filterMap (token? 0) := by
  induction row generalizing start with
  | nil => rfl
  | cons l rest ih =>
    have token : (Placed.token? text ⟨l, start + l.spelling.length⟩).map Token.unlined =
        l.token? 0 := unlined_token? _ l
    rw [place, List.filterMap_cons, List.filterMap_cons, ← token, ← ih]
    cases Placed.token? text ⟨l, start + l.spelling.length⟩ <;> rfl

end Lexeme

/-! ## Scans of renderings -/

section

variable {source : String} {tokens : Array Token} {ts : List Token}

/-- A scan finds the tokens that its source renders. -/
theorem tokenize_of_renders (h : Renders source.toList ts) :
    ∃ tokens, tokenize source = .ok tokens ∧
      tokens.toList.map Token.unlined = ts.map Token.unlined := by
  have ended : (TokenStream.ofSource source).scan.2 = .ok () :=
    (TokenStream.readAll_yields _ (fun _ => Lexeme.wellFormed_of_mem_cut) h.sound).1
  refine ⟨_, tokenize_eq_ok.mpr ⟨ended, rfl⟩, ?_⟩
  rw [(TokenStream.History.of_scan_ok ended).tokens, Lexeme.unlined_filterMap_place, h.tokens]

/-- What a scan finds is rendered by its source. -/
theorem renders_of_tokenize (h : tokenize source = .ok tokens) :
    Renders source.toList tokens.toList := by
  obtain ⟨ended, rfl⟩ := tokenize_eq_ok.mp h
  refine ⟨TokenStream.class?_of_readAll_ok ended, ?_⟩
  rw [(TokenStream.History.of_scan_ok ended).tokens, Lexeme.unlined_filterMap_place]

theorem scanned_of_tokenize (h : tokenize source = .ok tokens) :
    ∀ t ∈ tokens.toList, t.Scanned := by
  obtain ⟨ended, rfl⟩ := tokenize_eq_ok.mp h
  exact fun t member => (TokenStream.History.of_scan_ok ended).scanned member

end

/-! ## Renderings from behind -/

namespace Renders

variable {tail : List Char} {ts : List Token}

theorem nil : Renders [] [] := ⟨nofun, rfl⟩

/-- A lexeme that stands for no token renders nothing. -/
theorem skip {l : Lexeme} {k : Lexeme.Class} (readable : l.Readable) (sound : l.class? = some k)
    (quiet : l.meaning? = none) (ends : l.EndsBefore tail) (behind : Renders tail ts) :
    Renders (l.spelling ++ tail) ts := by
  have none : l.token? 0 = none := by rw [Lexeme.token?, quiet, Option.map_none]
  constructor
  · rw [readable.cut_append ends]
    exact List.forall_mem_cons.mpr ⟨⟨k, sound⟩, behind.sound⟩
  · rw [readable.cut_append ends, List.filterMap_cons_none none, behind.tokens]

/-- A lexeme renders the token that it stands for. -/
theorem cons {l : Lexeme} {t : Token} (readable : l.Readable)
    (meaning : l.meaning? = some (t.kind, t.value)) (spelled : l.spelling = t.lexeme.toList)
    (ends : l.EndsBefore tail) (behind : Renders tail ts) :
    Renders (t.lexeme.toList ++ tail) (t :: ts) := by
  have found : l.token? 0 = some t.unlined := by
    rw [Lexeme.token?, meaning, spelled, String.ofList_toList]
    rfl
  have sound := Lexeme.class?_of_meaning? (l := l) (by rw [meaning]; exact Option.some_ne_none _)
  rw [← spelled]
  constructor
  · rw [readable.cut_append ends]
    exact List.forall_mem_cons.mpr ⟨sound, behind.sound⟩
  · rw [readable.cut_append ends, List.filterMap_cons_some found, behind.tokens, List.map_cons]

/-- The text of a scanned token renders it in front of a blank or a closing parenthesis. -/
theorem token {t : Token} (scanned : t.Scanned)
    (closing : ∀ c ∈ tail.head?, Lexeme.isBlank c = true ∨ c = ')') (behind : Renders tail ts) :
    Renders (t.lexeme.toList ++ tail) (t :: ts) := by
  obtain ⟨l, readable, spelled, meaning⟩ := Lexeme.Denotes.exists_readable scanned
  refine behind.cons readable meaning spelled ?_
  exact Lexeme.endsBefore_of_closing (by rw [meaning]; exact Option.some_ne_none _) closing

/-- A mark of one letter that no letter prolongs renders its token in front of every text. -/
theorem mark {c : Char} {t : Token} (mark : (c, t.kind) ∈ Lexeme.singleMarks)
    (spelled : [c] = t.lexeme.toList) (absent : t.value = .absent) (behind : Renders tail ts) :
    Renders (c :: tail) (t :: ts) := by
  have readable : (Lexeme.mark t.kind [c]).Readable :=
    ⟨c, [], rfl, Lexeme.read_of_mem_singleMarks mark []⟩
  have other : c ≠ '/' ∧ [c] ∉ Lexeme.equalMarks.map (fun mark => [mark.1]) := by
    have all : ∀ mark ∈ Lexeme.singleMarks,
        mark.1 ≠ '/' ∧ [mark.1] ∉ Lexeme.equalMarks.map (fun mark => [mark.1]) := by decide
    exact all _ mark
  have ends : (Lexeme.mark t.kind [c]).EndsBefore tail := fun d _ =>
    ⟨fun slash => absurd (List.cons.inj slash).1 other.1, fun equal => absurd equal other.2⟩
  have rendered := behind.cons readable (by rw [absent]; rfl) spelled ends
  rwa [← spelled] at rendered

theorem blank {c : Char} (blank : Lexeme.isBlank c = true) (behind : Renders tail ts) :
    Renders (c :: tail) ts := by
  have readable : (Lexeme.blank c).Readable := ⟨c, [], rfl, Lexeme.read_of_isBlank blank []⟩
  exact behind.skip readable rfl rfl trivial

/-- A comment up to the end of its line, or of the text. -/
theorem comment {text : List Char} (line : '\n' ∉ text) (ends : ∀ c ∈ tail.head?, c = '\n')
    (behind : Renders tail ts) : Renders ('/' :: '/' :: text ++ tail) ts := by
  have made : (Lexeme.comment text).WellFormed := line
  exact behind.skip (made.readable rfl) rfl rfl ends

end Renders

end LoxSyntax
