import LoxSyntax.Proofs.Lexeme.Grammar
import LoxSyntax.TokenStream

/-!
# Maximal munch

A source is cut by taking, again and again, the longest text of some class that the rest of
it starts with (`Lexeme.LongestCuts`). The lexeme that is read at the head of a text is that
longest one, and where an error is read no text of any class stands there. So a source has
tokens just when it can be cut completely, and they are what the cuts that are neither
blank nor comment stand for (`Lexeme.Yields`).
-/

namespace LoxSyntax

namespace Lexeme

/-- The longest text of some class that a text starts with. -/
structure LongestMatch (text w : List Char) : Prop where
  belongs : ∃ k, Belongs k w
  starts : w <+: text
  longest : ∀ k v, Belongs k v → v <+: text → v.length ≤ w.length

/-- A text cut completely into longest matches. -/
inductive LongestCuts : List Char → List (List Char) → Prop
  | nil : LongestCuts [] []
  | cons {w rest : List Char} {cuts : List (List Char)} :
    LongestMatch (w ++ rest) w → LongestCuts rest cuts → LongestCuts (w ++ rest) (w :: cuts)

/-- The tokens that a row of cuts stands for, from the line that the first of them starts
on. A token is on the line that its cut ends on. -/
inductive Yields : Int → List (List Char) → List Token → Prop
  | nil {line : Int} : Yields line [] []
  | skip {line : Int} {w : List Char} {cuts : List (List Char)} {tokens : List Token} :
    Belongs .blank w ∨ Belongs .comment w → Yields (line + Text.lineFeeds w) cuts tokens →
    Yields line (w :: cuts) tokens
  | token {line : Int} {w : List Char} {cuts : List (List Char)} {tokens : List Token}
      {kind : Kind} {value : Value} :
    Denotes w kind value → Yields (line + Text.lineFeeds w) cuts tokens →
    Yields line (w :: cuts) (⟨kind, String.ofList w, value, line + Text.lineFeeds w⟩ :: tokens)

/-! ## Longest matches -/

theorem LongestMatch.unique {text v w : List Char} (h : LongestMatch text v)
    (h' : LongestMatch text w) : v = w := by
  rcases h.belongs with ⟨k, belongs⟩
  rcases h'.belongs with ⟨k', belongs'⟩
  have le := h'.longest k v belongs h.starts
  have ge := h.longest k' w belongs' h'.starts
  exact (List.prefix_of_prefix_length_le h.starts h'.starts le).eq_of_length_le ge

/-- The lexeme read at the head of a text covers the longest match, unless it is an
error. -/
theorem longestMatch_read {first : Char} {rest : List Char} {k : Class}
    (h : (read first rest).class? = some k) :
    LongestMatch (first :: rest) (read first rest).spelling where
  belongs := ⟨k, (WellFormed.read first rest).belongs h⟩
  starts := ⟨_, spelling_read_append first rest⟩
  longest _ _ belongs starts := (belongs.covered starts).2

/-- Where there is a longest match, no error is read. -/
theorem LongestMatch.spelling_read {first : Char} {rest w : List Char}
    (h : LongestMatch (first :: rest) w) :
    (∃ k, (read first rest).class? = some k) ∧ (read first rest).spelling = w := by
  rcases h.belongs with ⟨k, belongs⟩
  obtain ⟨k', sound⟩ := (belongs.covered h.starts).1
  exact ⟨⟨k', sound⟩, (longestMatch_read sound).unique h⟩

/-! ## Complete cuts -/

theorem LongestCuts.flatten {text : List Char} {cuts : List (List Char)}
    (h : LongestCuts text cuts) : cuts.flatten = text := by
  induction h with
  | nil => rfl
  | cons _ _ ih => rw [List.flatten_cons, ih]

/-- Where no lexeme of a cut is an error, the lexemes cover longest matches. -/
theorem longestCuts_cut (text : List Char) (h : ∀ l ∈ cut text, ∃ k, l.class? = some k) :
    LongestCuts text ((cut text).map spelling) := by
  induction text using cut_induction with
  | nil => exact .nil
  | cons first rest ih =>
    rw [cut_cons] at h
    rcases List.forall_mem_cons.mp h with ⟨⟨k, sound⟩, later⟩
    have longest := longestMatch_read sound
    rw [cut_cons, List.map_cons]
    have cuts := ih later
    rw [← spelling_read_append first rest] at longest
    have whole := LongestCuts.cons longest cuts
    rwa [spelling_read_append] at whole

/-- A text that can be cut into longest matches is cut into them, and into no error. -/
theorem LongestCuts.eq_cut {text : List Char} {cuts : List (List Char)}
    (h : LongestCuts text cuts) :
    cuts = (cut text).map spelling ∧ ∀ l ∈ cut text, ∃ k, l.class? = some k := by
  induction h with
  | nil => exact ⟨rfl, nofun⟩
  | @cons w rest cuts longest _ ih =>
    rcases longest.belongs with ⟨k, belongs⟩
    rcases belongs.exists_cons with ⟨first, more, rfl⟩
    rw [List.cons_append] at longest ⊢
    rcases longest.spelling_read with ⟨sound, spelled⟩
    have behind := spelling_read_append first (more ++ rest)
    rw [spelled, ← List.cons_append] at behind
    have behind := List.append_cancel_left behind
    rw [cut_cons, spelled, behind, List.map_cons, spelled, ← ih.1]
    exact ⟨rfl, List.forall_mem_cons.mpr ⟨sound, ih.2⟩⟩

theorem wellFormed_of_mem_cut {text : List Char} {l : Lexeme} (h : l ∈ cut text) :
    l.WellFormed := by
  induction text using cut_induction with
  | nil => cases h
  | cons first rest ih =>
    rw [cut_cons] at h
    rcases List.mem_cons.mp h with rfl | later
    · exact .read first rest
    · exact ih later

/-! ## Tokens of cuts -/

theorem Denotes.belongs {w : List Char} {kind : Kind} {value : Value}
    (h : Denotes w kind value) : ∃ k, Belongs k w := by
  cases h with
  | mark mark => exact ⟨_, .mark mark⟩
  | string contents => exact ⟨_, .string contents⟩
  | whole digits => exact ⟨_, .whole digits⟩
  | decimal digits fraction => exact ⟨_, .decimal digits fraction⟩
  | trueWord => exact ⟨_, .word (.inl rfl) (List.all_eq_true.mp rfl)⟩
  | falseWord => exact ⟨_, .word (.inl rfl) (List.all_eq_true.mp rfl)⟩
  | @keyword word _ _ => cases word <;> exact ⟨_, .word (.inl rfl) (List.all_eq_true.mp rfl)⟩
  | identifier belongs other => exact ⟨_, belongs⟩

theorem Denotes.exists_cons {w : List Char} {kind : Kind} {value : Value}
    (h : Denotes w kind value) : ∃ first more, w = first :: more := by
  obtain ⟨_, belongs⟩ := h.belongs
  exact belongs.exists_cons

theorem Denotes.unique {w : List Char} {kind kind' : Kind} {value value' : Value}
    (h : Denotes w kind value) (h' : Denotes w kind' value') : kind = kind' ∧ value = value' := by
  rcases h.exists_cons with ⟨first, more, split⟩
  have same := (h.meaning?_read split).symm.trans (h'.meaning?_read split)
  cases same
  exact ⟨rfl, rfl⟩

theorem Denotes.not_skipped {w : List Char} {kind : Kind} {value : Value}
    (h : Denotes w kind value) : ¬ (Belongs .blank w ∨ Belongs .comment w) := by
  intro skipped
  rcases h.exists_cons with ⟨first, more, split⟩
  cases (h.meaning?_read split).symm.trans (meaning?_read_of_skipped skipped split)

theorem Yields.unique {line : Int} {cuts : List (List Char)} {tokens tokens' : List Token}
    (h : Yields line cuts tokens) (h' : Yields line cuts tokens') : tokens = tokens' := by
  induction h generalizing tokens' with
  | nil =>
    cases h'
    rfl
  | skip skipped _ ih =>
    cases h' with
    | skip _ later => exact ih later
    | token denotes _ => exact absurd skipped denotes.not_skipped
  | token denotes _ ih =>
    cases h' with
    | skip skipped _ => exact absurd skipped denotes.not_skipped
    | token denotes' later =>
      obtain ⟨rfl, rfl⟩ := denotes.unique denotes'
      rw [ih later]

end Lexeme

/-! ## Scans -/

open Lexeme (LongestCuts Yields)

/-- A scan without an error reads lexemes that have a class. -/
theorem TokenStream.class?_of_readAll_ok {s : TokenStream} {lexemes : List Lexeme}
    (h : (s.readAll lexemes).2 = .ok ()) : ∀ l ∈ lexemes, ∃ k, l.class? = some k := by
  induction lexemes generalizing s with
  | nil => exact nofun
  | cons l rest ih =>
    unfold readAll at h
    dsimp only at h
    split at h
    · cases h
    · rename_i sound
      exact List.forall_mem_cons.mpr ⟨Lexeme.error?_eq_none_iff.mp sound, ih h⟩

/-- A scan of lexemes that have a class finds the tokens that they stand for. -/
theorem TokenStream.readAll_yields (s : TokenStream) {lexemes : List Lexeme}
    (wellFormed : ∀ l ∈ lexemes, l.WellFormed) (sound : ∀ l ∈ lexemes, ∃ k, l.class? = some k) :
    (s.readAll lexemes).2 = .ok () ∧
    ∃ found, (s.readAll lexemes).1.tokens.toList = s.tokens.toList ++ found ∧
      Yields s.line (lexemes.map Lexeme.spelling) found := by
  induction lexemes generalizing s with
  | nil => exact ⟨rfl, [], by simp [readAll], .nil⟩
  | cons l rest ih =>
    rcases List.forall_mem_cons.mp wellFormed with ⟨made, wellFormed⟩
    rcases List.forall_mem_cons.mp sound with ⟨⟨k, sound⟩, later⟩
    obtain ⟨ended, found, tokens, yields⟩ := ih (s.accept l rest) wellFormed later
    have quiet : l.error? (s.accept l rest).line = none := Lexeme.error?_eq_none_iff.mpr ⟨k, sound⟩
    have reading : s.readAll (l :: rest) = (s.accept l rest).readAll rest := by
      rw [readAll]
      simp only [quiet]
    rw [reading]
    refine ⟨ended, _, by rw [tokens, tokens_accept, List.append_assoc], ?_⟩
    rw [List.map_cons, Lexeme.token?]
    cases meaning : l.meaning? with
    | none => exact .skip (made.skipped sound meaning) yields
    | some meant =>
      rcases meant with ⟨kind, value⟩
      exact .token (made.denotes meaning) yields

theorem tokenize_eq_ok {source : String} {tokens : Array Token} :
    tokenize source = .ok tokens ↔
      ((TokenStream.ofSource source).scan).2 = .ok () ∧
      ((TokenStream.ofSource source).scan).1.tokens = tokens := by
  unfold tokenize
  cases (TokenStream.ofSource source).scan with
  | mk s outcome =>
    cases outcome with
    | ok done => simp
    | error e => simp

/-- A source has tokens just when it can be cut completely into longest matches, and they
are what those cuts stand for. -/
theorem tokenize_maximalMunch (source : String) :
    (∀ tokens, tokenize source = .ok tokens ↔
      ∃ cuts, LongestCuts source.toList cuts ∧ cuts.flatten = source.toList ∧
        Yields 1 cuts tokens.toList) ∧
    ((∃ tokens, tokenize source = .ok tokens) ↔ ∃ cuts, LongestCuts source.toList cuts) := by
  have cutInto {tokens : Array Token} (h : tokenize source = .ok tokens) :
      LongestCuts source.toList ((Lexeme.cut source.toList).map Lexeme.spelling) :=
    Lexeme.longestCuts_cut _ (TokenStream.class?_of_readAll_ok (tokenize_eq_ok.mp h).1)
  have scanned {cuts : List (List Char)} (h : LongestCuts source.toList cuts) :
      ∃ tokens, tokenize source = .ok tokens ∧ Yields 1 cuts tokens.toList := by
    rcases h.eq_cut with ⟨same, sound⟩
    obtain ⟨ended, found, tokens, yields⟩ := TokenStream.readAll_yields
      (TokenStream.ofSource source) (fun _ => Lexeme.wellFormed_of_mem_cut) sound
    have all : (TokenStream.ofSource source).scan.1.tokens.toList = found := tokens
    refine ⟨_, tokenize_eq_ok.mpr ⟨ended, rfl⟩, ?_⟩
    rw [same, all]
    exact yields
  refine ⟨fun tokens => ⟨fun h => ?_, ?_⟩, ?_, ?_⟩
  · have cuts := cutInto h
    rcases scanned cuts with ⟨tokens', again, yields⟩
    cases h.symm.trans again
    exact ⟨_, cuts, cuts.flatten, yields⟩
  · intro known
    rcases known with ⟨cuts, longest, -, yields⟩
    rcases scanned longest with ⟨tokens', result, yields'⟩
    have same : tokens' = tokens := by
      rw [← Array.toList_inj]
      exact yields'.unique yields
    rw [result, same]
  · intro known
    rcases known with ⟨tokens, result⟩
    exact ⟨_, cutInto result⟩
  · intro known
    rcases known with ⟨cuts, longest⟩
    rcases scanned longest with ⟨tokens, result, -⟩
    exact ⟨tokens, result⟩

end LoxSyntax
