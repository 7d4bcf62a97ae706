import LoxSyntax.Lexeme.Cut
import LoxSyntax.Log

/-!
# Token streams

A token stream is a source that is being turned into tokens: the lexemes still to
be read, the place and the line reached, the tokens found so far and the last
error. A scan reads lexemes up to the end of the source or the first error. The
lexeme in error counts as read, so a further scan goes on behind it; the tokens
found stay.

The line of a lexeme is the line it ends on, and the stream's line moves with it.

* `TokenStream.scan` is one scan, and `TokenStream.scanLog` the records it leaves.
* `TokenStream.tokenAt` looks a token up by its index.
* `tokenize` is a single scan of a whole source.
-/

namespace LoxSyntax

/-- A token was asked for at an index where there is none. -/
structure OutOfRange where
  index : Int
  count : Nat
deriving DecidableEq, Repr

/-- The wording of a bad index. -/
def OutOfRange.message (e : OutOfRange) : String :=
  "token index " ++ integerText e.index ++ " out of range for " ++ integerText e.count ++ " tokens"

/-- A source on its way into tokens. `position` counts the letters read. -/
structure TokenStream where
  pending : List Lexeme
  position : Nat := 0
  line : Int := 1
  tokens : Array Token := #[]
  error : Option LexicalError := none
deriving DecidableEq, Repr

namespace TokenStream

/-- The stream of a source of which nothing has been read. -/
def ofSource (source : String) : TokenStream where
  pending := Lexeme.cut source.toList

/-! ## Scanning -/

/-- The stream after one lexeme, with `rest` still to be read. -/
def accept (s : TokenStream) (l : Lexeme) (rest : List Lexeme) : TokenStream :=
  let line := s.line + Text.lineFeeds l.spelling
  { pending := rest
    position := s.position + l.spelling.length
    line
    tokens :=
      match l.token? line with
      | some t => s.tokens.push t
      | none => s.tokens
    error := (l.error? line).or s.error }

/-- A lexeme adds the token it stands for at the end and changes no other. -/
theorem tokens_accept (s : TokenStream) (l : Lexeme) (rest : List Lexeme) :
    (s.accept l rest).tokens.toList =
      s.tokens.toList ++ (l.token? (s.line + Text.lineFeeds l.spelling)).toList := by
  unfold accept
  cases found : l.token? (s.line + Text.lineFeeds l.spelling) <;> simp [found]

/-- Reads the pending lexemes up to the first error or the last lexeme. -/
def readAll (s : TokenStream) : List Lexeme → TokenStream × Except LexicalError Unit
  | [] => (s, .ok ())
  | l :: rest =>
    let next := s.accept l rest
    match l.error? next.line with
    | some e => (next, .error e)
    | none => readAll next rest

/-- Scans up to the end of the source or the first error. -/
def scan (s : TokenStream) : TokenStream × Except LexicalError Unit :=
  s.readAll s.pending

theorem scan_ofList (text : List Char) :
    (ofSource (String.ofList text)).scan =
      (ofSource (String.ofList text)).readAll (Lexeme.cut text) := by
  unfold scan ofSource
  rw [String.toList_ofList]

/-- A scan keeps the tokens found before it. -/
theorem prefix_tokens_readAll (s : TokenStream) (lexemes : List Lexeme) :
    s.tokens.toList <+: (s.readAll lexemes).1.tokens.toList := by
  induction lexemes generalizing s with
  | nil => exact List.prefix_refl _
  | cons l rest ih =>
    have kept : s.tokens.toList <+: (s.accept l rest).tokens.toList := by
      rw [tokens_accept]
      exact List.prefix_append _ _
    unfold readAll
    dsimp only
    split
    · exact kept
    · exact kept.trans (ih _)

/-- A stream with nothing pending is left alone by a scan. -/
theorem scan_of_pending_nil {s : TokenStream} (h : s.pending = []) : s.scan = (s, .ok ()) := by
  rw [scan, h, readAll]

/-- The record that finding a token leaves: strings are noted with their
length. -/
def recordOf? (t : Token) : Option LogRecord :=
  match t.kind, t.value with
  | .string, .text contents =>
    some ⟨.debug, "Scanner", "adding string with len " ++ integerText contents.length⟩
  | _, _ => none

/-- The records that a scan leaves, from the stream before it and its outcome:
one for each string found and, unless it failed, one for the end of the source. -/
def scanLog (before : TokenStream) (outcome : TokenStream × Except LexicalError Unit) :
    List LogRecord :=
  let after := outcome.1
  let found := (after.tokens.toList.drop before.tokens.size).filterMap recordOf?
  match outcome.2 with
  | .error _ => found
  | .ok () =>
    found ++ [⟨.debug, "Scanner", "scanned " ++ integerText after.tokens.size ++
      " tokens over " ++ integerText after.line ++ " lines"⟩]

/-! ## Reading the tokens found -/

/-- The number of tokens found so far. -/
def count (s : TokenStream) : Nat :=
  s.tokens.size

/-- The token at an index counted from zero. -/
def tokenAt (s : TokenStream) (index : Int) : Except OutOfRange Token :=
  if index < 0 then .error ⟨index, s.count⟩
  else
    match s.tokens[index.toNat]? with
    | some t => .ok t
    | none => .error ⟨index, s.count⟩

theorem tokenAt_of_outside {s : TokenStream} {index : Int} (h : index < 0 ∨ s.count ≤ index) :
    s.tokenAt index = .error ⟨index, s.count⟩ := by
  unfold tokenAt
  split
  · rfl
  · have past : s.tokens.size ≤ index.toNat := by
      unfold count at h
      omega
    rw [Array.getElem?_eq_none past]

theorem exists_tokenAt_of_inside {s : TokenStream} {index : Int} (h : 0 ≤ index ∧ index < s.count) :
    ∃ t, s.tokenAt index = .ok t := by
  unfold count at h
  have inside : index.toNat < s.tokens.size := by omega
  refine ⟨s.tokens[index.toNat], ?_⟩
  unfold tokenAt
  rw [if_neg (by omega), Array.getElem?_eq_getElem inside]

theorem count_le_of_grown {s later : TokenStream} (h : s.tokens.toList <+: later.tokens.toList) :
    s.count ≤ later.count := by
  have length := h.length_le
  rwa [Array.length_toList, Array.length_toList] at length

/-- The listing of the tokens found so far, a line for each. -/
def listing (s : TokenStream) : List String :=
  s.tokens.toList.map Token.listing

/-- The line of the last token found, or the first line when there is none. -/
def lastLine (s : TokenStream) : Int :=
  match s.tokens.back? with
  | some t => t.line
  | none => 1

theorem length_listing (s : TokenStream) : s.listing.length = s.count := by
  simp [listing, count]

end TokenStream

/-- The tokens of a whole source, or its first lexical error. -/
def tokenize (source : String) : Except LexicalError (Array Token) :=
  match (TokenStream.ofSource source).scan with
  | (s, .ok ()) => .ok s.tokens
  | (_, .error e) => .error e

end LoxSyntax
