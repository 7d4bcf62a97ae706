import LoxSyntax.Grammar.Level
import LoxSyntax.Proofs.Number.NaturalText
import LoxSyntax.Proofs.TokenStream.History

/-!
# The texts of tokens

A token that a scan finds stands for what the text it was read from denotes
(`Token.Scanned`). Its own text denotes the same, so that it settles the token but for the
line and the text of a number (`Token.essence_eq_of_text`); only infinity has a text that
denotes something else, which no literal and no operator is. The texts of literals and
operators are told from what stands behind them in a printed tree by their letters
(`Printed.Atom.unique`).
-/

namespace LoxSyntax

open Lexeme (Belongs Denotes Digits Marks)

/-! ## Marks and words -/

namespace Lexeme

/-- The marks, each with its kind. -/
def marks : List (List Char × Kind) :=
  (singleMarks.map fun (c, kind) => ([c], kind)) ++ (['/'], .slash) ::
    equalMarks.flatMap fun (c, alone, withEqual) => [([c], alone), ([c, '='], withEqual)]

theorem Marks.mem_marks {w : List Char} {kind : Kind} (h : Marks w kind) : (w, kind) ∈ marks := by
  cases h with
  | single member => exact List.mem_append_left _ (List.mem_map.mpr ⟨_, member, rfl⟩)
  | slash => exact List.mem_append_right _ List.mem_cons_self
  | alone member =>
    refine List.mem_append_right _ (List.mem_cons_of_mem _ (List.mem_flatMap.mpr ⟨_, member, ?_⟩))
    exact List.mem_cons_self
  | withEqual member =>
    refine List.mem_append_right _ (List.mem_cons_of_mem _ (List.mem_flatMap.mpr ⟨_, member, ?_⟩))
    exact List.mem_cons_of_mem _ List.mem_cons_self

/-- What is true of every mark of the table is true of every mark. -/
theorem Marks.of_all {p : List Char × Kind → Prop} {w : List Char} {kind : Kind}
    (h : Marks w kind) (all : ∀ mark ∈ marks, p mark) : p (w, kind) :=
  all _ h.mem_marks

theorem denotes_inf : Denotes "inf".toList .identifier (.text "inf") :=
  .identifier (.word (.inl rfl) (List.all_eq_true.mp rfl)) fun word => by cases word <;> decide

theorem denotes_group : Denotes "group".toList .identifier (.text "group") :=
  .identifier (.word (.inl rfl) (List.all_eq_true.mp rfl)) fun word => by cases word <;> decide

/-- Only strings and blanks reach over the end of a line. -/
theorem Belongs.lineFeed_not_mem {k : Class} {w : List Char} (h : Belongs k w)
    (string : k ≠ .string) (blank : k ≠ .blank) : '\n' ∉ w := by
  have digits {w : List Char} (h : Digits w) : '\n' ∉ w := fun member =>
    absurd (h.2 _ member) (by decide)
  intro member
  cases h with
  | blank _ => exact blank rfl
  | string _ => exact string rfl
  | comment line => exact line (by simpa using member)
  | mark mark => exact mark.of_all (p := fun mark => '\n' ∉ mark.1) (by decide) member
  | whole whole => exact digits whole member
  | decimal whole fraction =>
    rcases List.mem_append.mp member with first | last
    · exact digits whole first
    · exact digits fraction (List.mem_of_ne_of_mem (by decide) last)
  | word starts letters =>
    rcases List.mem_cons.mp member with rfl | later
    · exact absurd starts (by decide)
    · exact absurd (letters _ later) (by decide)

/-- What stands for a token that is no string is on one line. -/
theorem Denotes.lineFeed_not_mem {w : List Char} {kind : Kind} {value : Value}
    (h : Denotes w kind value) (string : kind ≠ .string) : '\n' ∉ w := by
  cases h with
  | mark mark => exact (Belongs.mark mark).lineFeed_not_mem nofun nofun
  | string _ => exact absurd rfl string
  | whole digits => exact (Belongs.whole digits).lineFeed_not_mem nofun nofun
  | decimal digits digits' => exact (Belongs.decimal digits digits').lineFeed_not_mem nofun nofun
  | trueWord => decide
  | falseWord => decide
  | @keyword word _ _ => cases word <;> decide
  | identifier word _ => exact word.lineFeed_not_mem nofun nofun

/-- Only number tokens have numbers as values, and these are unsigned. -/
theorem Denotes.unsigned {w : List Char} {kind : Kind} {x : Binary64}
    (h : Denotes w kind (.number x)) : kind = .number ∧ x.Unsigned := by
  cases h with
  | whole _ => exact ⟨rfl, Binary64.ofDecimal_unsigned _⟩
  | decimal _ _ => exact ⟨rfl, Binary64.ofDecimal_unsigned _⟩

/-- A number token has a number as its value. -/
theorem Denotes.exists_number {w : List Char} {value : Value} (h : Denotes w .number value) :
    ∃ x, value = .number x ∧ x.Unsigned := by
  cases h with
  | whole _ => exact ⟨_, rfl, Binary64.ofDecimal_unsigned _⟩
  | decimal _ _ => exact ⟨_, rfl, Binary64.ofDecimal_unsigned _⟩
  | mark mark =>
    have other := mark.of_all (p := fun mark => mark.2 ≠ .number) (by decide)
    exact absurd rfl other

/-- Only reserved words have truth values. -/
theorem Denotes.exists_keyword {w : List Char} {kind : Kind} {b : Bool}
    (h : Denotes w kind (.truth b)) : ∃ word, kind = .keyword word := by
  cases h with
  | trueWord => exact ⟨_, rfl⟩
  | falseWord => exact ⟨_, rfl⟩

/-- Values of one kind denote the same just when they are equal. -/
theorem Denotes.same_iff {w w' : List Char} {kind : Kind} {v v' : Value} (h : Denotes w kind v)
    (h' : Denotes w' kind v') : v.same v' = true ↔ v = v' := by
  cases v with
  | number x =>
    obtain ⟨rfl, unsigned⟩ := h.unsigned
    obtain ⟨y, rfl, unsigned'⟩ := h'.exists_number
    rw [Value.number.injEq]
    exact unsigned.sameNumber_iff unsigned'
  | truth b =>
    obtain ⟨word, rfl⟩ := h.exists_keyword
    cases v' with
    | number y => cases h'.unsigned.1
    | truth b' => cases b <;> cases b' <;> decide
    | absent => exact ⟨nofun, nofun⟩
    | text s => exact ⟨nofun, nofun⟩
  | text s =>
    cases v' with
    | text s' => rw [Value.same_text, beq_iff_eq, Value.text.injEq]
    | number y => exact ⟨nofun, nofun⟩
    | truth b' => exact ⟨nofun, nofun⟩
    | absent => exact ⟨nofun, nofun⟩
  | absent =>
    cases v' with
    | absent => exact ⟨fun _ => rfl, fun _ => rfl⟩
    | number y => exact ⟨nofun, nofun⟩
    | truth b' => exact ⟨nofun, nofun⟩
    | text s => exact ⟨nofun, nofun⟩

end Lexeme

/-- Whether a kind is an operator in front of or between operands. -/
def Kind.isOperator (kind : Kind) : Bool :=
  kind.isUnaryOperator || (Level.of? kind).isSome

namespace Token

/-! ## Scanned tokens -/

/-- The token stands for what the text it was read from denotes. -/
def Scanned (t : Token) : Prop :=
  Denotes t.lexeme.toList t.kind t.value

/-- The token less its line and, where it is a number, less the text it was read from. -/
def essence (t : Token) : Token :=
  { t with lexeme := if t.kind = .number then "" else t.lexeme, line := 0 }

/-- Tokens that stand for what some texts denote are equal field by field just when they are
equal. -/
theorem same_iff_of_denotes {t u : Token} {w w' : List Char} (h : Denotes w t.kind t.value)
    (h' : Denotes w' u.kind u.value) : t.same u = true ↔ t = u := by
  unfold Token.same
  simp only [Bool.and_eq_true, beq_iff_eq]
  constructor
  · rintro ⟨⟨⟨kind, lexeme⟩, value⟩, line⟩
    rw [← kind] at h'
    rw [Token.mk.injEq]
    exact ⟨kind, lexeme, (Lexeme.Denotes.same_iff h h').mp value, line⟩
  · rintro rfl
    exact ⟨⟨⟨rfl, rfl⟩, (Lexeme.Denotes.same_iff h h).mpr rfl⟩, rfl⟩

theorem text_essence (t : Token) : t.essence.text = t.text := by
  obtain ⟨kind, lexeme, value, line⟩ := t
  cases kind <;> rfl

theorem text_eq_lexeme_of_ne {t : Token} (string : t.kind ≠ .string) (number : t.kind ≠ .number)
    (identifier : t.kind ≠ .identifier) : t.text = t.lexeme := by
  unfold text
  split
  · contradiction
  · contradiction
  · contradiction
  · rfl

namespace Scanned

variable {t u : Token}

/-- The text of a scanned token that is no number is the text it was read from. -/
theorem text_eq_lexeme (h : t.Scanned) (kind : t.kind ≠ .number) : t.text = t.lexeme := by
  obtain ⟨kind, lexeme, value, line⟩ := t
  unfold Scanned at h
  dsimp only at h kind
  apply String.toList_inj.mp
  generalize spelled : lexeme.toList = w at h
  cases h with
  | mark mark =>
    have other := mark.of_all
      (p := fun mark => mark.2 ≠ .string ∧ mark.2 ≠ .number ∧ mark.2 ≠ .identifier) (by decide)
    rw [text_eq_lexeme_of_ne other.1 other.2.1 other.2.2, spelled]
  | string contents => simp [text, Value.plain]
  | whole _ => exact absurd rfl kind
  | decimal _ _ => exact absurd rfl kind
  | trueWord => exact spelled
  | falseWord => exact spelled
  | keyword _ _ => exact spelled
  | identifier _ _ => exact String.toList_ofList

/-- The text of a scanned token denotes what the token stands for, unless that is
infinity. -/
theorem denotes_text (h : t.Scanned) :
    Denotes t.text.toList t.kind t.value ∨
      t.text = "inf" ∧ t.kind = .number ∧ t.value = .number .infinity := by
  by_cases kind : t.kind = .number
  · unfold Scanned at h
    rw [kind] at h
    obtain ⟨x, value, unsigned⟩ := h.exists_number
    have text : t.text = x.naturalText := by
      unfold Token.text
      rw [kind, value]
    cases finite : x.isFinite with
    | true =>
      rw [text, kind, value]
      exact .inl (x.denotes_naturalText unsigned finite)
    | false =>
      obtain rfl := unsigned.eq_infinity finite
      exact .inr ⟨text.trans Binary64.naturalText_infinity, kind, value⟩
  · rw [h.text_eq_lexeme kind]
    exact .inl h

/-- Scanned tokens of one text that are no identifiers are the same but for their lines and
the texts that their numbers were read from. -/
theorem essence_eq_of_text (h : t.Scanned) (h' : u.Scanned) (word : t.kind ≠ .identifier)
    (word' : u.kind ≠ .identifier) (same : t.text = u.text) : t.essence = u.essence := by
  have meaning : t.kind = u.kind ∧ t.value = u.value := by
    rcases h.denotes_text with denotes | infinite
    · rcases h'.denotes_text with denotes' | infinite'
      · rw [same] at denotes
        exact denotes.unique denotes'
      · rw [same, infinite'.1] at denotes
        exact absurd (denotes.unique Lexeme.denotes_inf).1 word
    · rcases h'.denotes_text with denotes' | infinite'
      · rw [← same, infinite.1] at denotes'
        exact absurd (denotes'.unique Lexeme.denotes_inf).1 word'
      · exact ⟨infinite.2.1.trans infinite'.2.1.symm, infinite.2.2.trans infinite'.2.2.symm⟩
  have lexeme : (if t.kind = .number then "" else t.lexeme) =
      if u.kind = .number then "" else u.lexeme := by
    rw [← meaning.1]
    split
    · rfl
    · rename_i kind
      rw [← h.text_eq_lexeme kind, ← h'.text_eq_lexeme (meaning.1 ▸ kind), same]
  unfold essence
  rw [lexeme, meaning.1, meaning.2]

/-- Equality of scanned tokens without their lines and the texts of numbers, field by field,
is equality. -/
theorem same_essence_iff (h : t.Scanned) (h' : u.Scanned) :
    t.essence.same u.essence = true ↔ t.essence = u.essence :=
  same_iff_of_denotes h h'

/-- All opening parentheses are the same but for their lines. -/
theorem essence_of_leftParen (h : t.Scanned) (kind : t.kind = .leftParen) :
    t.essence = ⟨.leftParen, "(", .absent, 0⟩ := by
  obtain ⟨_, lexeme, value, line⟩ := t
  dsimp only at kind
  subst kind
  unfold Scanned at h
  dsimp only at h
  generalize spelled : lexeme.toList = w at h
  cases h with
  | mark mark =>
    have paren : Kind.leftParen = .leftParen → w = "(".toList := mark.of_all
      (p := fun mark => mark.2 = .leftParen → mark.1 = "(".toList) (by decide)
    rw [paren rfl] at spelled
    obtain rfl := String.toList_inj.mp spelled
    rfl

/-- A scanned token can be shown. -/
theorem textError?_eq_none (h : t.Scanned) : t.textError? = none := by
  unfold textError?
  by_cases kind : t.kind = .number
  · unfold Scanned at h
    rw [kind] at h
    obtain ⟨x, value, -⟩ := h.exists_number
    rw [kind, value]
  · split
    · contradiction
    · contradiction
    · contradiction
    · rfl

end Scanned

end Token

/-! ## Tokens of streams -/

/-- Every token that a scan finds is a scanned token. -/
theorem TokenStream.History.scanned {source : String} {s : TokenStream} {read : List Lexeme}
    (h : s.History source read) {t : Token} (member : t ∈ s.tokens.toList) : t.Scanned := by
  rw [h.tokens] at member
  obtain ⟨p, place, token⟩ := List.mem_filterMap.mp member
  obtain ⟨meaning, found, rfl⟩ := Option.map_eq_some_iff.mp token
  have among : p.lexeme ∈ Lexeme.cut source.toList := by
    rw [h.cut]
    exact List.mem_append_left _ (Lexeme.lexeme_mem_of_mem_place place)
  have denotes := (Lexeme.wellFormed_of_mem_cut among).denotes found
  unfold Token.Scanned
  rw [String.toList_ofList]
  exact denotes

/-! ## Texts within a printed tree -/

namespace Printed

/-- Whether a letter is a space, a parenthesis or a quote. -/
def breaks (c : Char) : Bool :=
  c == ' ' || c == '(' || c == ')' || c == '"'

/-- A row of letters that no space, parenthesis or quote breaks. -/
structure Plain (w : List Char) : Prop where
  nonempty : w ≠ []
  unbroken : w.all (fun c => !breaks c) = true

/-- The text of a literal: a row of letters, or a string in its quotes. -/
inductive Atom : List Char → Prop
  | plain {w : List Char} : Plain w → Atom w
  | string {contents : List Char} : '"' ∉ contents → Atom ('"' :: (contents ++ ['"']))

/-- What may follow a printed tree: nothing, a space or a closing parenthesis. -/
def Closed (rest : List Char) : Prop :=
  ∀ c ∈ rest.head?, c = ' ' ∨ c = ')'

theorem Closed.nil : Closed [] := nofun

theorem Closed.space (rest : List Char) : Closed (' ' :: rest) := by
  intro c head
  cases head
  exact .inl rfl

theorem Closed.paren (rest : List Char) : Closed (')' :: rest) := by
  intro c head
  cases head
  exact .inr rfl

/-- A row of letters ends where something closed follows. -/
theorem Plain.takeWhile_append {w rest : List Char} (h : Plain w) (closed : Closed rest) :
    (w ++ rest).takeWhile (fun c => !breaks c) = w := by
  rw [List.takeWhile_append_of_pos (List.all_eq_true.mp h.unbroken)]
  cases rest with
  | nil => rw [List.takeWhile_nil, List.append_nil]
  | cons c rest =>
    rcases closed c rfl with rfl | rfl
    · rw [List.takeWhile_cons_of_neg (by decide), List.append_nil]
    · rw [List.takeWhile_cons_of_neg (by decide), List.append_nil]

/-- An atom starts with no parenthesis. -/
theorem Atom.append_ne_paren {w : List Char} (h : Atom w) (rest more : List Char) :
    w ++ rest ≠ '(' :: more := by
  intro same
  cases h with
  | plain plain =>
    obtain ⟨c, w, rfl⟩ := List.exists_cons_of_ne_nil plain.nonempty
    obtain rfl : c = '(' := (List.cons.inj same).1
    cases plain.unbroken
  | string contents => cases same

/-- A row of letters starts with no quote. -/
theorem Plain.append_ne_quote {w : List Char} (h : Plain w) (rest more : List Char) :
    w ++ rest ≠ '"' :: more := by
  intro same
  obtain ⟨c, w, rfl⟩ := List.exists_cons_of_ne_nil h.nonempty
  obtain rfl : c = '"' := (List.cons.inj same).1
  cases h.unbroken

/-- An atom ends where something closed follows, whatever that is. -/
theorem Atom.unique {w w' rest rest' : List Char} (h : Atom w) (h' : Atom w')
    (closed : Closed rest) (closed' : Closed rest') (same : w ++ rest = w' ++ rest') :
    w = w' ∧ rest = rest' := by
  have words : w = w' := by
    cases h with
    | plain plain =>
      cases h' with
      | plain plain' =>
        rw [← plain.takeWhile_append closed, same, plain'.takeWhile_append closed']
      | string _ => exact absurd same (plain.append_ne_quote _ _)
    | @string contents free =>
      cases h' with
      | plain plain' => exact absurd same.symm (plain'.append_ne_quote _ _)
      | @string contents' free' =>
        have behind : contents ++ '"' :: rest = contents' ++ '"' :: rest' := by
          simpa using same
        have read := Lexeme.readString_contents free rest
        rw [behind, Lexeme.readString_contents free' rest'] at read
        cases read
        rfl
  subst words
  exact ⟨rfl, List.append_cancel_left same⟩

theorem breaks_of_isDigit {c : Char} (h : c.isDigit = true) : breaks c = false := by
  cases broken : breaks c with
  | false => rfl
  | true =>
    simp only [breaks, Bool.or_eq_true, beq_iff_eq] at broken
    rcases broken with ((rfl | rfl) | rfl) | rfl <;> cases h

theorem Plain.digits {w : List Char} (h : Digits w) : Plain w where
  nonempty := h.1
  unbroken := List.all_eq_true.mpr fun c member => by rw [breaks_of_isDigit (h.2 c member)]; rfl

/-- Two rows of letters with a point between them. -/
theorem Plain.point {w v : List Char} (h : Plain w) (h' : Plain v) : Plain (w ++ '.' :: v) where
  nonempty := List.append_ne_nil_of_left_ne_nil h.nonempty _
  unbroken := by
    rw [List.all_append, List.all_cons, h.unbroken, h'.unbroken]
    rfl

end Printed

namespace Token.Scanned

open Printed (Atom Plain)

variable {t : Token}

/-- The text of a literal is an atom. -/
theorem atom_text (h : t.Scanned) (literal : t.isLiteral = true) : Atom t.text.toList := by
  rcases h.denotes_text with denotes | infinite
  · unfold isLiteral at literal
    generalize t.text.toList = w, t.kind = kind, t.value = value at denotes literal
    cases denotes with
    | mark mark =>
      have other := mark.of_all (p := fun mark => mark.2.isLiteral ≠ true) (by decide)
      exact absurd literal other
    | string free => exact .string free
    | whole digits => exact .plain (.digits digits)
    | decimal digits digits' => exact .plain (.point (.digits digits) (.digits digits'))
    | trueWord => exact .plain ⟨nofun, by decide⟩
    | falseWord => exact .plain ⟨nofun, by decide⟩
    | @keyword word _ _ =>
      cases word with
      | nilWord => exact .plain ⟨nofun, by decide⟩
      | trueWord => contradiction
      | falseWord => contradiction
      | _ => cases literal
    | identifier _ _ => cases literal
  · rw [infinite.1]
    exact .plain ⟨nofun, by decide⟩

/-- The text of an operator is a row of letters, and not the name of a grouping. -/
theorem plain_text (h : t.Scanned) (operator : t.kind.isOperator = true) :
    Plain t.text.toList ∧ t.text ≠ "group" := by
  have number : t.kind ≠ .number := by
    intro kind
    rw [kind] at operator
    cases operator
  unfold Scanned at h
  rw [← text_eq_lexeme h number] at h
  refine ⟨?_, fun same => ?_⟩
  · generalize t.text.toList = w, t.kind = kind, t.value = value at h operator
    cases h with
    | mark mark =>
      have plain := mark.of_all
        (p := fun mark => mark.2.isOperator = true → mark.1 ≠ [] ∧
          mark.1.all (fun c => !Printed.breaks c) = true) (by decide)
      exact ⟨(plain operator).1, (plain operator).2⟩
    | @keyword word _ _ => cases word <;> cases operator
    | string _ => cases operator
    | whole _ => cases operator
    | decimal _ _ => cases operator
    | trueWord => cases operator
    | falseWord => cases operator
    | identifier _ _ => cases operator
  · rw [same] at h
    rw [(h.unique Lexeme.denotes_group).1] at operator
    cases operator

end Token.Scanned

end LoxSyntax
