import LoxSyntax.Proofs.Lexeme.MaximalMunch

/-!
# What a token stream has read

The streams that scans of a source pass through (`TokenStream.Reached`): between any two
lexemes, whether an error has stopped a scan there or not. What such a stream holds is
settled by the lexemes it has read, which are the first ones of the cut of its source
(`TokenStream.History`). A lexeme has its place in the source (`Lexeme.place`), and the line
of that place is the line that tokens and errors are given.

* `Reached.scan`: a scan, however it ends, leads to a stream that is passed through.
* `Reached.history`: every stream that is passed through has a history.
* `Reached.exists_of_scan_error`: a scan that fails has just read the lexeme in error.
-/

namespace LoxSyntax

/-! ## Lines of a text -/

namespace Text

/-- The line that an offset of a text is on: one more than the line feeds before it. -/
def lineAt (text : List Char) (offset : Nat) : Int :=
  1 + lineFeeds (text.take offset)

theorem lineAt_zero (text : List Char) : lineAt text 0 = 1 := rfl

theorem lineAt_length (text : List Char) : lineAt text text.length = 1 + lineFeeds text := by
  rw [lineAt, List.take_length]

/-- From one offset to a later one the line grows by the line feeds between them. -/
theorem lineAt_add {before between behind : List Char} :
    lineAt (before ++ between ++ behind) (before.length + between.length) =
      lineAt (before ++ between ++ behind) before.length + lineFeeds between := by
  have whole : (before ++ between ++ behind).take (before.length + between.length) =
      before ++ between := by
    rw [← List.length_append, List.take_left]
  have first : (before ++ between ++ behind).take before.length = before := by
    rw [List.append_assoc, List.take_left]
  unfold lineAt
  rw [whole, first, lineFeeds_append]
  omega

/-- Lines never decrease along a text. -/
theorem lineAt_mono (text : List Char) {offset later : Nat} (h : offset ≤ later) :
    lineAt text offset ≤ lineAt text later := by
  have split := (List.take_append_drop offset (text.take later)).symm
  rw [List.take_take, Nat.min_eq_left h] at split
  unfold lineAt
  rw [split, lineFeeds_append]
  omega

end Text

/-! ## Lexemes at their places -/

namespace Lexeme

/-- A lexeme at its place in a text; `stop` is the offset behind its last letter. -/
structure Placed where
  lexeme : Lexeme
  stop : Nat

/-- The places of a row of lexemes, the first of which starts at an offset. -/
def place (start : Nat) : List Lexeme → List Placed
  | [] => []
  | l :: rest => ⟨l, start + l.spelling.length⟩ :: place (start + l.spelling.length) rest

/-- The token that a lexeme stands for at its place in a text. -/
def Placed.token? (text : List Char) (p : Placed) : Option Token :=
  p.lexeme.token? (Text.lineAt text p.stop)

theorem place_concat (start : Nat) (row : List Lexeme) (l : Lexeme) :
    place start (row ++ [l]) =
      place start row ++ [⟨l, start + (row.flatMap spelling).length + l.spelling.length⟩] := by
  induction row generalizing start with
  | nil => simp [place]
  | cons first rest ih => simp [place, ih, Nat.add_assoc]

/-- The places of a row of lexemes that make up a text are where their spellings stand in
it. -/
theorem spelling_suffix_of_mem_place (before behind : List Char) {row : List Lexeme} {p : Placed}
    (h : p ∈ place before.length row) :
    p.lexeme.spelling <:+ (before ++ row.flatMap spelling ++ behind).take p.stop := by
  induction row generalizing before with
  | nil => cases h
  | cons l rest ih =>
    have whole : before ++ (l :: rest).flatMap spelling ++ behind =
        before ++ l.spelling ++ rest.flatMap spelling ++ behind := by simp
    rw [whole]
    rw [place, ← List.length_append] at h
    rcases List.mem_cons.mp h with rfl | later
    · rw [List.append_assoc, List.take_left]
      exact List.suffix_append before l.spelling
    · exact ih _ later

theorem lexeme_mem_of_mem_place {start : Nat} {row : List Lexeme} {p : Placed}
    (h : p ∈ place start row) : p.lexeme ∈ row := by
  induction row generalizing start with
  | nil => cases h
  | cons l rest ih =>
    rcases List.mem_cons.mp h with rfl | later
    · exact List.mem_cons_self
    · exact List.mem_cons_of_mem _ (ih later)

theorem le_stop_of_mem_place {start : Nat} {row : List Lexeme} {p : Placed}
    (h : p ∈ place start row) : start ≤ p.stop := by
  induction row generalizing start with
  | nil => cases h
  | cons l rest ih =>
    rcases List.mem_cons.mp h with rfl | later
    · exact Nat.le_add_right _ _
    · exact Nat.le_trans (Nat.le_add_right _ _) (ih later)

theorem pairwise_stop_place (start : Nat) (row : List Lexeme) :
    (place start row).Pairwise fun p q => p.stop ≤ q.stop := by
  induction row generalizing start with
  | nil => exact .nil
  | cons l rest ih => exact .cons (fun p member => le_stop_of_mem_place member) (ih _)

theorem length_place (start : Nat) (row : List Lexeme) : (place start row).length = row.length := by
  induction row generalizing start with
  | nil => rfl
  | cons l rest ih => rw [place, List.length_cons, List.length_cons, ih]

theorem exists_mem_place {l : Lexeme} {row : List Lexeme} (h : l ∈ row) (start : Nat) :
    ∃ p ∈ place start row, p.lexeme = l := by
  induction row generalizing start with
  | nil => cases h
  | cons l' rest ih =>
    rcases List.mem_cons.mp h with rfl | later
    · exact ⟨_, List.mem_cons_self, rfl⟩
    · obtain ⟨p, member, same⟩ := ih later _
      exact ⟨p, List.mem_cons_of_mem _ member, same⟩

/-- Lexemes that cover letters end one behind the other. -/
theorem pairwise_stop_place_lt {row : List Lexeme} (full : ∀ l ∈ row, l.spelling ≠ [])
    (start : Nat) : (place start row).Pairwise fun p q => p.stop < q.stop := by
  induction row generalizing start with
  | nil => exact .nil
  | cons l rest ih =>
    obtain ⟨-, full⟩ := List.forall_mem_cons.mp full
    refine .cons (fun p member => ?_) (ih full _)
    cases rest with
    | nil => cases member
    | cons l' rest =>
      have some := List.length_pos_iff.mpr (full l' List.mem_cons_self)
      rw [place] at member
      rcases List.mem_cons.mp member with rfl | later
      · dsimp only
        omega
      · have behind := le_stop_of_mem_place later
        dsimp only
        omega

end Lexeme

/-! ## Streams that scans pass through -/

namespace TokenStream

/-- The streams that scans of a source pass through. A scan reads the next lexeme again and
again; where an error stops it, a further scan reads on from there. -/
inductive Reached (source : String) : TokenStream → Prop
  | start : Reached source (ofSource source)
  | accept {s : TokenStream} {l : Lexeme} {rest : List Lexeme} :
    Reached source s → s.pending = l :: rest → Reached source (s.accept l rest)

theorem readAll_of_error {s : TokenStream} {l : Lexeme} {rest : List Lexeme} {e : LexicalError}
    (h : l.error? (s.accept l rest).line = some e) :
    s.readAll (l :: rest) = (s.accept l rest, .error e) := by
  rw [readAll]
  simp only [h]

theorem readAll_of_no_error {s : TokenStream} {l : Lexeme} {rest : List Lexeme}
    (h : l.error? (s.accept l rest).line = none) :
    s.readAll (l :: rest) = (s.accept l rest).readAll rest := by
  rw [readAll]
  simp only [h]

theorem Reached.readAll {source : String} {s : TokenStream} {lexemes : List Lexeme}
    (h : Reached source s) (pending : s.pending = lexemes) :
    Reached source (s.readAll lexemes).1 := by
  induction lexemes generalizing s with
  | nil => exact h
  | cons l rest ih =>
    have next := h.accept pending
    cases wrong : l.error? (s.accept l rest).line with
    | some e =>
      rw [readAll_of_error wrong]
      exact next
    | none =>
      rw [readAll_of_no_error wrong]
      exact ih next rfl

/-- A scan, however it ends, leads to a stream that is passed through. -/
theorem Reached.scan {source : String} {s : TokenStream} (h : Reached source s) :
    Reached source s.scan.1 :=
  h.readAll rfl

/-- A scan that fails has just read the lexeme in error. -/
theorem Reached.exists_of_scan_error {source : String} {s : TokenStream} {e : LexicalError}
    (h : Reached source s) (failed : s.scan.2 = .error e) :
    ∃ (before : TokenStream) (l : Lexeme) (rest : List Lexeme), Reached source before ∧
      before.pending = l :: rest ∧ s.scan.1 = before.accept l rest ∧
      l.error? (before.accept l rest).line = some e := by
  -- the scan is a recursion on what is pending, so the induction is on that
  have reading : ∀ (lexemes : List Lexeme) (s : TokenStream), Reached source s →
      s.pending = lexemes → (s.readAll lexemes).2 = .error e →
      ∃ (before : TokenStream) (l : Lexeme) (rest : List Lexeme), Reached source before ∧
        before.pending = l :: rest ∧ (s.readAll lexemes).1 = before.accept l rest ∧
        l.error? (before.accept l rest).line = some e := by
    intro lexemes
    induction lexemes with
    | nil => exact fun s h pending failed => nomatch failed
    | cons l rest ih =>
      intro s h pending failed
      cases wrong : l.error? (s.accept l rest).line with
      | some e' =>
        rw [readAll_of_error wrong] at failed ⊢
        cases failed
        exact ⟨s, l, rest, h, pending, rfl, wrong⟩
      | none =>
        rw [readAll_of_no_error wrong] at failed ⊢
        exact ih _ (h.accept pending) rfl failed
  exact reading s.pending s h rfl failed

/-! ## Histories -/

/-- What a stream of a source holds after the lexemes `read`: the rest of the cut is
pending, the position is behind them, the line is that of the position, and the tokens are
those that they stand for at their places. -/
structure History (source : String) (s : TokenStream) (read : List Lexeme) : Prop where
  cut : Lexeme.cut source.toList = read ++ s.pending
  position : s.position = (read.flatMap Lexeme.spelling).length
  line : s.line = Text.lineAt source.toList s.position
  tokens : s.tokens.toList =
    (Lexeme.place 0 read).filterMap fun p => p.token? source.toList

namespace History

variable {source : String} {s : TokenStream} {read : List Lexeme}

theorem start : History source (ofSource source) [] where
  cut := rfl
  position := rfl
  line := (Text.lineAt_zero _).symm
  tokens := rfl

/-- The source is what has been read and what the pending lexemes cover. -/
theorem source_eq (h : s.History source read) :
    source.toList = read.flatMap Lexeme.spelling ++ s.pending.flatMap Lexeme.spelling := by
  rw [← List.flatMap_append, ← h.cut, Lexeme.flatMap_spelling_cut]

/-- The places of the lexemes read are where their spellings stand in the source. -/
theorem spelling_suffix (h : s.History source read) {p : Lexeme.Placed}
    (member : p ∈ Lexeme.place 0 read) : p.lexeme.spelling <:+ source.toList.take p.stop := by
  have stands := Lexeme.spelling_suffix_of_mem_place []
    (s.pending.flatMap Lexeme.spelling) member
  rwa [List.nil_append, ← h.source_eq] at stands

/-- Reading the next lexeme adds it to the history. -/
theorem accept (h : s.History source read) {l : Lexeme} {rest : List Lexeme}
    (pending : s.pending = l :: rest) : (s.accept l rest).History source (read ++ [l]) := by
  have whole := h.source_eq
  rw [pending, List.flatMap_cons, ← List.append_assoc] at whole
  have line : (s.accept l rest).line =
      Text.lineAt source.toList (s.position + l.spelling.length) := by
    rw [whole, h.position, Text.lineAt_add, ← h.position, ← whole, ← h.line]
    rfl
  refine ⟨?_, ?_, line, ?_⟩
  · rw [h.cut, pending, List.append_assoc]
    rfl
  · rw [List.flatMap_append, List.length_append, ← h.position]
    simp [TokenStream.accept]
  · have tokens := tokens_accept s l rest
    have moved : s.line + Text.lineFeeds l.spelling = (s.accept l rest).line := rfl
    rw [moved, line, h.tokens, h.position] at tokens
    rw [tokens, Lexeme.place_concat, List.filterMap_append, Nat.zero_add]
    congr 1

end History

/-- Every stream that is passed through has a history. -/
theorem Reached.history {source : String} {s : TokenStream} (h : Reached source s) :
    ∃ read, s.History source read := by
  induction h with
  | start => exact ⟨[], .start⟩
  | accept _ pending ih =>
    obtain ⟨read, history⟩ := ih
    exact ⟨read ++ [_], history.accept pending⟩

/-- A scan that ends without an error has read all that was pending. -/
theorem pending_of_readAll_ok {s : TokenStream} {lexemes : List Lexeme}
    (pending : s.pending = lexemes) (h : (s.readAll lexemes).2 = .ok ()) :
    (s.readAll lexemes).1.pending = [] := by
  induction lexemes generalizing s with
  | nil => exact pending
  | cons l rest ih =>
    cases wrong : l.error? (s.accept l rest).line with
    | some e =>
      rw [readAll_of_error wrong] at h
      cases h
    | none =>
      rw [readAll_of_no_error wrong] at h ⊢
      exact ih rfl h

/-- A whole source has been read when a scan of it ends without an error. -/
theorem History.of_scan_ok {source : String} (h : (ofSource source).scan.2 = .ok ()) :
    (ofSource source).scan.1.History source (Lexeme.cut source.toList) := by
  have begun : Reached source (ofSource source) := .start
  obtain ⟨read, history⟩ := begun.scan.history
  have cut := history.cut
  have ended : (ofSource source).scan.1.pending = [] := pending_of_readAll_ok rfl h
  rw [ended, List.append_nil] at cut
  rwa [cut]

end TokenStream

end LoxSyntax
