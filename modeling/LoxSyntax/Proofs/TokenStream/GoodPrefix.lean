import Mathlib.Logic.ExistsUnique
import LoxSyntax.Proofs.Lexeme.Boundary
import LoxSyntax.Proofs.TokenStream.Resumption

/-!
# The good prefix of a source

A lexeme that ends in front of a text ends in front of every prefix of it, so the lexemes before
a place where one of them ends are cut in the same way when the source ends there
(`Lexeme.cut_flatMap_spelling`). The first scan of a source that fails has therefore found the
tokens of the source up to the lexeme in error, which is a letter that starts no lexeme or a
string that is not closed, and has stopped behind that lexeme (`first_scan_stops`).
-/

namespace LoxSyntax

open Text (lineAt)

namespace Lexeme

/-! ## Lexemes in front of a place -/

/-- A text that goes on as a fraction does so however much of it is behind. -/
theorem fractionDigits_of_append {tail behind : List Char}
    (h : fractionDigits (tail ++ behind) = []) : fractionDigits tail = [] := by
  refine fractionDigits_eq_nil_of_prefix h fun d _ ahead => ?_
  exact ahead.trans (List.prefix_append tail behind)

/-- A lexeme that ends in front of a text ends in front of every text that it starts with. -/
theorem EndsBefore.of_append {l : Lexeme} {tail behind : List Char}
    (h : l.EndsBefore (tail ++ behind)) : l.EndsBefore tail := by
  cases tail with
  | nil => exact endsBefore_nil l
  | cons c tail =>
    cases l with
    | number whole fraction => exact ⟨h.1, fun none => fractionDigits_of_append (h.2 none)⟩
    | unclosed contents => cases h
    | _ => exact h

/-- The lexemes before a place of a text are cut off in the same way when the text ends
there. -/
theorem cut_flatMap_spelling {text : List Char} {before behind : List Lexeme}
    (h : cut text = before ++ behind) : cut (before.flatMap spelling) = before := by
  refine cut_rows (motive := fun text row => ∀ before behind, row = before ++ behind →
    cut (before.flatMap spelling) = before) ?_ ?_ text before behind h
  · intro before behind split
    obtain ⟨rfl, -⟩ := List.append_eq_nil_iff.mp split.symm
    rfl
  · intro l tail readable ends ih before behind split
    cases before with
    | nil => rfl
    | cons l' before =>
      rw [List.cons_append] at split
      obtain ⟨rfl, later⟩ := List.cons.inj split
      -- the lexeme ends in front of what is left of the text behind it
      have whole := flatMap_spelling_cut tail
      rw [later, List.flatMap_append] at whole
      rw [← whole] at ends
      rw [List.flatMap_cons, readable.cut_append ends.of_append, ih before behind later]

theorem stop_le_of_mem_place {start : Nat} {row : List Lexeme} {p : Placed}
    (h : p ∈ place start row) : p.stop ≤ start + (row.flatMap spelling).length := by
  induction row generalizing start with
  | nil => cases h
  | cons l rest ih =>
    rw [List.flatMap_cons, List.length_append, ← Nat.add_assoc]
    rcases List.mem_cons.mp h with rfl | later
    · exact Nat.le_add_right _ _
    · exact ih later

/-- Lexemes stand for the same tokens in a text that ends behind them. -/
theorem filterMap_token?_append (row : List Lexeme) (behind : List Char) :
    ((place 0 row).filterMap fun p => p.token? (row.flatMap spelling ++ behind)) =
      (place 0 row).filterMap fun p => p.token? (row.flatMap spelling) := by
  refine List.filterMap_congr fun p member => ?_
  have inside := stop_le_of_mem_place member
  rw [Nat.zero_add] at inside
  unfold Placed.token? lineAt
  rw [List.take_append_of_le_length inside]

/-! ## Lexemes in error -/

/-- No text of any class starts with a letter that starts no lexeme. -/
theorem Readable.not_belongs {letter : Char} (h : Readable (.unrecognized letter)) (k : Class)
    (more : List Char) : ¬ Belongs k (letter :: more) := by
  intro belongs
  obtain ⟨first, rest, spelled, reading⟩ := h
  obtain ⟨rfl, -⟩ := List.cons.inj spelled
  obtain ⟨⟨k', sound⟩, -⟩ := belongs.covered (List.prefix_refl _)
  rw [(read_eq_unrecognized reading more).2] at sound
  cases sound

/-- An unclosed string has no quote behind its first. -/
theorem Readable.quote_not_mem {contents : List Char} (h : Readable (.unclosed contents)) :
    '"' ∉ contents := by
  obtain ⟨first, rest, spelled, reading⟩ := h
  obtain ⟨rfl, rfl⟩ := List.cons.inj spelled
  rw [read_quote] at reading
  unfold readString at reading
  split at reading
  · have kept := not_mem_takeWhile_ne '"' contents
    rwa [Lexeme.unclosed.inj reading] at kept
  · cases reading

end Lexeme

/-! ## The first scan -/

namespace TokenStream

/-- A scan that fails has read lexemes without an error and then one in error. -/
theorem exists_of_readAll_error {s : TokenStream} {lexemes : List Lexeme} {e : LexicalError}
    (failed : (s.readAll lexemes).2 = .error e) :
    ∃ read l rest, lexemes = read ++ l :: rest ∧ (∀ m ∈ read, ∃ k, m.class? = some k) ∧
      (s.readAll lexemes).1.pending = rest ∧
      l.error? (s.readAll lexemes).1.line = some e := by
  induction lexemes generalizing s with
  | nil => cases failed
  | cons l rest ih =>
    cases wrong : l.error? (s.accept l rest).line with
    | some e' =>
      rw [readAll_of_error wrong] at failed ⊢
      cases failed
      exact ⟨[], l, rest, rfl, nofun, rfl, wrong⟩
    | none =>
      rw [readAll_of_no_error wrong] at failed ⊢
      obtain ⟨read, l', rest', split, sound, ended, wrong'⟩ := ih failed
      refine ⟨l :: read, l', rest', by rw [split, List.cons_append], ?_, ended, wrong'⟩
      exact List.forall_mem_cons.mpr ⟨Lexeme.error?_eq_none_iff.mp wrong, sound⟩

/-- Lexemes that are what their text is cut into, without an error, are tokenized. -/
theorem tokenize_flatMap_spelling {row : List Lexeme}
    (cut : Lexeme.cut (row.flatMap Lexeme.spelling) = row)
    (sound : ∀ l ∈ row, ∃ k, l.class? = some k) :
    ∃ tokens, tokenize (String.ofList (row.flatMap Lexeme.spelling)) = .ok tokens ∧
      tokens.toList = (Lexeme.place 0 row).filterMap
        fun p => p.token? (row.flatMap Lexeme.spelling) := by
  let source := String.ofList (row.flatMap Lexeme.spelling)
  have letters : source.toList = row.flatMap Lexeme.spelling := String.toList_ofList
  have pending : (ofSource source).pending = row := by
    rw [ofSource, letters, cut]
  have ended : (ofSource source).scan.2 = .ok () := by
    rw [scan, pending]
    have made : ∀ l ∈ row, l.WellFormed := fun l member =>
      Lexeme.wellFormed_of_mem_cut (cut.symm ▸ member)
    exact ((ofSource source).readAll_yields made sound).1
  refine ⟨_, tokenize_eq_ok.mpr ⟨ended, rfl⟩, ?_⟩
  rw [(History.of_scan_ok ended).tokens, letters, cut]

/-- How the first scan of a source leaves its stream when it fails because of the lexeme at the
offset `start`: it has kept the tokens of the source up to there, and has stopped behind a
string that is not closed or a letter that starts no lexeme. -/
structure StoppedAt (source : String) (s : TokenStream) (e : LexicalError) (start : Nat) :
    Prop where
  tokens : tokenize (String.ofList (source.toList.take start)) = .ok s.tokens
  lexeme :
    (e.diagnostic.code = some "L002" ∧ source.toList[start]? = some '"' ∧
      '"' ∉ source.toList.drop (start + 1) ∧ s.position = source.toList.length) ∨
    ∃ letter, e.diagnostic.code = some "L001" ∧
      e.diagnostic.message = "Unrecognized character '" ++ letter.toString ++ "'" ∧
      source.toList[start]? = some letter ∧ letter ∉ [' ', '\t', '\r', '\n'] ∧ letter ≠ '"' ∧
      (∀ k more, ¬ Lexeme.Belongs k (letter :: more)) ∧ s.position = start + 1

variable {source : String}

/-- The lexeme in error of a source starts at one offset only: where the last quote stands, or
just before the place that the scan has come to. -/
theorem StoppedAt.unique {s : TokenStream} {e : LexicalError} {start start' : Nat}
    (h : s.StoppedAt source e start) (h' : s.StoppedAt source e start') : start = start' := by
  have last {start start' : Nat} (quote : source.toList[start']? = some '"')
      (none : '"' ∉ source.toList.drop (start + 1)) : start' ≤ start := by
    refine Nat.le_of_not_lt fun later => none (List.mem_iff_getElem?.mpr ⟨start' - (start + 1), ?_⟩)
    rw [List.getElem?_drop, Nat.add_sub_cancel' later, quote]
  rcases h.lexeme with ⟨code, quote, none, -⟩ | ⟨letter, code, -, -, -, -, -, stop⟩
  · rcases h'.lexeme with ⟨-, quote', none', -⟩ | ⟨letter', code', -⟩
    · exact Nat.le_antisymm (last quote none') (last quote' none)
    · exact absurd (code.symm.trans code') (by decide)
  · rcases h'.lexeme with ⟨code', -⟩ | ⟨letter', -, -, -, -, -, -, stop'⟩
    · exact absurd (code.symm.trans code') (by decide)
    · omega

/-- The first scan of a source fails with the first lexeme of its cut that is an error, and has
read that one and those before it. -/
theorem exists_history_of_scan_error {e : LexicalError}
    (failed : (ofSource source).scan.2 = .error e) :
    ∃ before l, (∀ m ∈ before, ∃ k, m.class? = some k) ∧
      (ofSource source).scan.1.History source (before ++ [l]) ∧
      l.error? (ofSource source).scan.1.line = some e := by
  obtain ⟨before, l, behind, split, sound, pending, wrong⟩ := exists_of_readAll_error failed
  have begun : Reached source (ofSource source) := .start
  obtain ⟨read, history⟩ := begun.scan.history
  have left : (ofSource source).scan.1.pending = behind := pending
  have cut := history.cut
  rw [left, show Lexeme.cut source.toList = before ++ l :: behind from split,
    List.append_cons before l behind] at cut
  obtain rfl := List.append_cancel_right cut
  exact ⟨before, l, sound, history, wrong⟩

/-- A lexeme in error stands for no token. -/
theorem tokens_of_error {s : TokenStream} {before : List Lexeme} {l : Lexeme} {e : LexicalError}
    (history : s.History source (before ++ [l])) (wrong : l.error? s.line = some e) :
    s.tokens.toList =
      (Lexeme.place 0 before).filterMap fun p => p.token? source.toList := by
  have none (p : Lexeme.Placed) (same : p.lexeme = l) : p.token? source.toList = none := by
    unfold Lexeme.Placed.token? Lexeme.token?
    rw [same]
    cases l <;> first | rfl | cases wrong
  rw [history.tokens, Lexeme.place_concat, List.filterMap_append, List.filterMap_cons_none
    (none _ rfl), List.filterMap_nil, List.append_nil]

/-- The first scan of a source stops because of the lexeme that starts at some offset. -/
theorem exists_stoppedAt {e : LexicalError} (failed : (ofSource source).scan.2 = .error e) :
    ∃ start, (ofSource source).scan.1.StoppedAt source e start := by
  obtain ⟨before, l, sound, history, wrong⟩ := exists_history_of_scan_error failed
  generalize (ofSource source).scan.1 = s at history wrong
  have cut := history.cut
  rw [← List.append_cons] at cut
  have member : l ∈ Lexeme.cut source.toList := by simp [cut]
  have readable := Lexeme.readable_of_mem_cut member
  have whole := history.source_eq
  rw [List.flatMap_append, List.flatMap_singleton, List.append_assoc] at whole
  have place := history.position
  rw [List.flatMap_append, List.flatMap_singleton, List.length_append] at place
  refine ⟨(before.flatMap Lexeme.spelling).length, ?_, ?_⟩
  · obtain ⟨tokens, tokenized, found⟩ :=
      tokenize_flatMap_spelling (Lexeme.cut_flatMap_spelling cut) sound
    have same : s.tokens = tokens := by
      rw [← Array.toList_inj, found, tokens_of_error history wrong, whole,
        Lexeme.filterMap_token?_append]
    rw [whole, List.take_left, tokenized, same]
  · cases l with
    | unrecognized letter =>
      cases wrong
      have none := readable.not_belongs
      refine .inr ⟨letter, rfl, rfl, ?_, fun blank => ?_, fun quote => ?_, none, place⟩
      · rw [whole]
        simp [Lexeme.spelling]
      · exact none .blank [] (.blank blank)
      · subst quote
        exact none .string ['"'] (.string List.not_mem_nil)
    | unclosed contents =>
      cases wrong
      have ended := Lexeme.nil_of_cut_eq_unclosed cut
      rw [ended, List.flatMap_nil, List.append_nil] at whole
      refine .inl ⟨rfl, ?_, ?_, ?_⟩
      · rw [whole]
        simp [Lexeme.spelling]
      · rw [whole, ← List.drop_drop, List.drop_left]
        exact readable.quote_not_mem
      · rw [whole, place, List.length_append]
    | _ => cases wrong

end TokenStream

/-- The first scan of a source that fails has kept the tokens of the source up to one offset and
no other, where the lexeme in error starts: either a quote behind which there is no other, and
the scan has come to the end, or a letter that is no blank and no quote and that no lexeme
starts with, which the message names, and the scan has come just behind it. The stream keeps
the error. A first scan that does not fail comes to the end and leaves no error. -/
theorem first_scan_stops (source : String) :
    (∀ e, (TokenStream.ofSource source).scan.2 = .error e →
      (TokenStream.ofSource source).scan.1.error = some e ∧
        ∃! start, (TokenStream.ofSource source).scan.1.StoppedAt source e start) ∧
    ((TokenStream.ofSource source).scan.2 = .ok () →
      (TokenStream.ofSource source).scan.1.position = source.toList.length ∧
        (TokenStream.ofSource source).scan.1.error = none) := by
  refine ⟨fun e failed => ⟨TokenStream.error_readAll_of_error failed, ?_⟩, fun ended => ⟨?_, ?_⟩⟩
  · obtain ⟨start, stopped⟩ := TokenStream.exists_stoppedAt failed
    exact ⟨start, stopped, fun other stopped' => stopped'.unique stopped⟩
  · rw [(TokenStream.History.of_scan_ok ended).position, Lexeme.flatMap_spelling_cut]
  · exact TokenStream.error_readAll_of_ok ended

/-- In `1.!` and a letter of code point zero the point behind the number is a token of its own,
with the letter behind it or without, and so is the mark. -/
theorem first_scan_stops_zero :
    let run := (TokenStream.ofSource "1.!\x00=").scan
    run.2 = .error (.unrecognized (Char.ofNat 0) 1) ∧ run.1.tokens.size = 3 ∧
      run.1.error = some (.unrecognized (Char.ofNat 0) 1) ∧
      ∃! start, run.1.StoppedAt "1.!\x00=" (.unrecognized (Char.ofNat 0) 1) start := by
  intro run
  have failed : run.2 = .error (.unrecognized (Char.ofNat 0) 1) := by rfl
  exact ⟨failed, by rfl, (first_scan_stops "1.!\x00=").1 _ failed⟩

end LoxSyntax
