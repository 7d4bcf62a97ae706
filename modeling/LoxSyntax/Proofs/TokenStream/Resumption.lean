import LoxSyntax.Proofs.TokenStream.Lines

/-!
# Resumed scans

A scan that has failed can be resumed behind the lexeme in error, again and again until one
ends without an error (`TokenStream.Resumes`). Each error takes up a letter of the source at
least, so that an end comes (`TokenStream.History.exists_resumes`). A letter that starts no
lexeme parts its neighbours as a space does: with a space in its place the source is cut into
the same lexemes but for that one (`Lexeme.cut_mended`). So all the scans together find what
a single scan finds in the source with its unrecognized letters blanked out
(`resumed_scans_recover`).
-/

namespace LoxSyntax

open Text (lineAt lineFeeds)

/-! ## Mishaps -/

/-- The text with a space at each of the offsets. -/
def Text.blankOut (text : List Char) (offsets : List Nat) : List Char :=
  offsets.foldl (fun blanked offset => blanked.set offset ' ') text

/-- A lexical error and the offset behind the letters in error, where the scan stopped. -/
structure Mishap where
  error : LexicalError
  stop : Nat
deriving DecidableEq, Repr

/-- The offset of the letter that starts no lexeme, if the error is about one. -/
def Mishap.letterOffset? (m : Mishap) : Option Nat :=
  match m.error with
  | .unrecognized _ _ => some (m.stop - 1)
  | .unclosedString _ => none

/-- The source with a space for each letter that was reported to start no lexeme. -/
def blankedSource (source : String) (mishaps : List Mishap) : String :=
  String.ofList (Text.blankOut source.toList (mishaps.filterMap Mishap.letterOffset?))

/-- What is wrong with a lexeme at its place in a text. -/
def Lexeme.Placed.mishap? (text : List Char) (p : Placed) : Option Mishap :=
  (p.lexeme.error? (lineAt text p.stop)).map fun e => ⟨e, p.stop⟩

namespace TokenStream

/-- `s.Resumes mishaps last`: scans of the stream, resumed after every error, fail with
`mishaps` in this order until one ends without an error and leaves the stream as `last`. -/
inductive Resumes : TokenStream → List Mishap → TokenStream → Prop
  | ended {s last : TokenStream} : s.scan = (last, .ok ()) → Resumes s [] last
  | resumed {s next last : TokenStream} {e : LexicalError} {mishaps : List Mishap} :
    s.scan = (next, .error e) → Resumes next mishaps last →
    Resumes s (⟨e, next.position⟩ :: mishaps) last

/-! ## Runs of scans -/

section

variable {s t last : TokenStream} {mishaps : List Mishap}

theorem Resumes.unique {last' : TokenStream} {mishaps' : List Mishap}
    (h : s.Resumes mishaps last) (h' : s.Resumes mishaps' last') :
    mishaps = mishaps' ∧ last = last' := by
  induction h generalizing mishaps' with
  | ended scanned =>
    cases h' with
    | ended scanned' =>
      cases scanned.symm.trans scanned'
      exact ⟨rfl, rfl⟩
    | resumed scanned' _ => cases scanned.symm.trans scanned'
  | resumed scanned _ ih =>
    cases h' with
    | ended scanned' => cases scanned.symm.trans scanned'
    | resumed scanned' behind =>
      cases scanned.symm.trans scanned'
      obtain ⟨rfl, rfl⟩ := ih behind
      exact ⟨rfl, rfl⟩

/-- What comes of a stream is settled by its next scan. -/
theorem Resumes.of_scan_eq (h : t.Resumes mishaps last) (same : s.scan = t.scan) :
    s.Resumes mishaps last := by
  cases h with
  | ended scanned => exact .ended (same.trans scanned)
  | resumed scanned behind => exact .resumed (same.trans scanned) behind

theorem error_readAll_of_error {lexemes : List Lexeme} {e : LexicalError}
    (h : (s.readAll lexemes).2 = .error e) : (s.readAll lexemes).1.error = some e := by
  induction lexemes generalizing s with
  | nil => cases h
  | cons l rest ih =>
    cases wrong : l.error? (s.accept l rest).line with
    | some e' =>
      rw [readAll_of_error wrong] at h ⊢
      cases h
      show (l.error? (s.accept l rest).line).or s.error = some e
      rw [wrong, Option.some_or]
    | none =>
      rw [readAll_of_no_error wrong] at h ⊢
      exact ih h

theorem error_readAll_of_ok {lexemes : List Lexeme} (h : (s.readAll lexemes).2 = .ok ()) :
    (s.readAll lexemes).1.error = s.error := by
  induction lexemes generalizing s with
  | nil => rfl
  | cons l rest ih =>
    cases wrong : l.error? (s.accept l rest).line with
    | some e =>
      rw [readAll_of_error wrong] at h
      cases h
    | none =>
      rw [readAll_of_no_error wrong] at h ⊢
      rw [ih h]
      show (l.error? (s.accept l rest).line).or s.error = s.error
      rw [wrong, Option.none_or]

/-- The stream remembers the error that was raised last. -/
theorem Resumes.error (h : s.Resumes mishaps last) :
    last.error = (mishaps.getLast?.map Mishap.error).or s.error := by
  induction h with
  | @ended s last scanned =>
    have kept := error_readAll_of_ok (congrArg Prod.snd scanned : s.scan.2 = _)
    rw [← scan, scanned] at kept
    exact kept
  | @resumed s next last e mishaps scanned _ ih =>
    have raised := error_readAll_of_error (congrArg Prod.snd scanned : s.scan.2 = _)
    rw [← scan, scanned] at raised
    rw [ih, raised]
    cases mishaps with
    | nil => rfl
    | cons m rest => simp [List.getLast?_cons]

end

/-! ## Mishaps by their places -/

/-- From any stream of a source the scans end, and their errors are those of the lexemes still
to be read, at their places. -/
theorem History.exists_resumes {source : String} {s : TokenStream} {read : List Lexeme}
    (h : s.History source read) : ∃ last,
      s.Resumes ((Lexeme.place s.position s.pending).filterMap
        fun p => p.mishap? source.toList) last ∧
      last.History source (Lexeme.cut source.toList) := by
  generalize row : s.pending = pending
  induction pending generalizing s read with
  | nil =>
    have cut := h.cut
    rw [row, List.append_nil] at cut
    rw [cut]
    exact ⟨s, .ended (scan_of_pending_nil row), h⟩
  | cons l rest ih =>
    have next := h.accept row
    obtain ⟨last, resumes, history⟩ := ih next rfl
    refine ⟨last, ?_, history⟩
    have line : (s.accept l rest).line =
        lineAt source.toList (s.position + l.spelling.length) := next.line
    rw [Lexeme.place]
    cases wrong : l.error? (s.accept l rest).line with
    | some e =>
      have mishap : Lexeme.Placed.mishap? source.toList ⟨l, s.position + l.spelling.length⟩ =
          some ⟨e, (s.accept l rest).position⟩ := by
        rw [Lexeme.Placed.mishap?, ← line, wrong]
        rfl
      rw [List.filterMap_cons_some mishap]
      refine .resumed ?_ resumes
      rw [scan, row, readAll_of_error wrong]
    | none =>
      have quiet : Lexeme.Placed.mishap? source.toList ⟨l, s.position + l.spelling.length⟩ =
          none := by
        rw [Lexeme.Placed.mishap?, ← line, wrong]
        rfl
      rw [List.filterMap_cons_none quiet]
      refine resumes.of_scan_eq ?_
      rw [scan, row, readAll_of_no_error wrong]
      rfl

/-- Each error is about the letters that the scan it stopped has just read. -/
theorem Resumes.standsAt {source : String} {s last : TokenStream} {mishaps : List Mishap}
    (h : s.Resumes mishaps last) (reached : Reached source s) :
    ∀ m ∈ mishaps, m.error.StandsAt source.toList m.stop := by
  induction h with
  | ended _ => exact nofun
  | @resumed s next last e mishaps scanned _ ih =>
    have after := reached.scan
    have stands := reached.error_standsAt (congrArg Prod.snd scanned)
    rw [scanned] at after stands
    exact List.forall_mem_cons.mpr ⟨stands, ih after⟩

end TokenStream

/-! ## Letters blanked out -/

/-- A letter and what may stand in its place: itself, or a space for a letter that ends no
line. -/
def Text.Blanked (c c' : Char) : Prop :=
  c' = c ∨ c' = ' ' ∧ c ≠ '\n'

open Text (Blanked)

theorem Text.forall₂_blanked_refl (text : List Char) : List.Forall₂ Blanked text text :=
  List.forall₂_same.mpr fun _ _ => .inl rfl

theorem Text.lineFeeds_blanked {text text' : List Char} (h : List.Forall₂ Blanked text text') :
    lineFeeds text = lineFeeds text' := by
  unfold lineFeeds
  induction h with
  | nil => rfl
  | cons letter _ ih =>
    rcases letter with rfl | ⟨rfl, other⟩
    · rw [List.count_cons, List.count_cons, ih]
    · rw [List.count_cons_of_ne other, List.count_cons_of_ne (by decide), ih]

theorem Text.lineAt_blanked {text text' : List Char} (h : List.Forall₂ Blanked text text')
    (offset : Nat) : lineAt text offset = lineAt text' offset := by
  unfold lineAt
  rw [lineFeeds_blanked (List.forall₂_take offset h)]

namespace Lexeme

/-- The lexeme with a space for a letter that starts no lexeme. -/
def mended : Lexeme → Lexeme
  | .unrecognized _ => .blank ' '
  | l => l

theorem length_spelling_mended (l : Lexeme) : l.mended.spelling.length = l.spelling.length := by
  cases l <;> rfl

theorem Readable.mended {l : Lexeme} (h : l.Readable) : l.mended.Readable := by
  cases l with
  | unrecognized letter => exact ⟨' ', [], rfl, rfl⟩
  | _ => exact h

theorem Readable.forall₂_blanked {l : Lexeme} (h : l.Readable) :
    List.Forall₂ Blanked l.spelling l.mended.spelling := by
  cases l with
  | unrecognized letter =>
    obtain ⟨first, more, spelled, reading⟩ := h
    obtain ⟨rfl, rfl⟩ := List.cons.inj spelled
    refine .cons (.inr ⟨rfl, fun same => ?_⟩) .nil
    subst same
    cases reading
  | _ => exact Text.forall₂_blanked_refl _

/-- A fraction that starts behind a letter was there before letters were blanked out. -/
theorem fractionDigits_blanked {c : Char} {tail tail' : List Char}
    (h : fractionDigits (c :: tail) = []) (blanked : List.Forall₂ Blanked tail tail') :
    fractionDigits (c :: tail') = [] := by
  refine fractionDigits_eq_nil_of_prefix h fun d digit ahead => ?_
  obtain ⟨rfl, behind', rfl⟩ := List.cons_prefix_cons.mp ahead
  cases blanked with
  | cons letter _ =>
    rcases letter with rfl | ⟨rfl, -⟩
    · exact ⟨_, rfl⟩
    · cases digit

/-- Spaces prolong no lexeme that the letters in their places did not prolong. -/
theorem EndsBefore.mended {l : Lexeme} {tail tail' : List Char} (h : l.EndsBefore tail)
    (blanked : List.Forall₂ Blanked tail tail') : l.mended.EndsBefore tail' := by
  cases blanked with
  | nil => exact endsBefore_nil _
  | @cons c c' tail tail' letter behind =>
    rcases letter with rfl | ⟨rfl, other⟩
    · cases l with
      | number whole fraction =>
        exact ⟨h.1, fun none => fractionDigits_blanked (h.2 none) behind⟩
      | unclosed contents => cases h
      | blank _ => trivial
      | unrecognized _ => trivial
      | _ => exact h
    · refine endsBefore_blank rfl (fun contents same => ?_) (fun text same => ?_) _
      · cases l with
        | unclosed contents => cases h
        | _ => cases same
      · cases l with
        | comment text => exact absurd (h c rfl) other
        | _ => cases same

/-- With spaces for the letters that start no lexeme a text is cut where it was cut. -/
theorem cut_mended (text : List Char) :
    cut (((cut text).map mended).flatMap spelling) = (cut text).map mended ∧
      List.Forall₂ Blanked text (((cut text).map mended).flatMap spelling) := by
  refine cut_rows (motive := fun text row => cut ((row.map mended).flatMap spelling) =
    row.map mended ∧ List.Forall₂ Blanked text ((row.map mended).flatMap spelling))
    ⟨rfl, .nil⟩ ?_ text
  intro l tail readable ends ih
  obtain ⟨again, blanked⟩ := ih
  rw [List.map_cons, List.flatMap_cons, readable.mended.cut_append (ends.mended blanked), again]
  exact ⟨rfl, List.rel_append readable.forall₂_blanked blanked⟩

/-- Blanking out the letters in error of a row of lexemes mends the row. -/
theorem blankOut_place (text before : List Char) (row : List Lexeme) :
    Text.blankOut (before ++ row.flatMap spelling)
      (((place before.length row).filterMap fun p => p.mishap? text).filterMap
        Mishap.letterOffset?) = before ++ (row.map mended).flatMap spelling := by
  induction row generalizing before with
  | nil => rfl
  | cons l rest ih =>
    have behind := ih (before ++ l.mended.spelling)
    rw [List.length_append, length_spelling_mended] at behind
    rw [List.filterMap_filterMap] at behind ⊢
    rw [place, List.map_cons, List.flatMap_cons, List.flatMap_cons, ← List.append_assoc,
      ← List.append_assoc, ← behind]
    cases l with
    | unrecognized letter =>
      have mend : (before ++ [letter] ++ rest.flatMap spelling).set before.length ' ' =
          before ++ [' '] ++ rest.flatMap spelling := by simp
      show Text.blankOut ((before ++ [letter] ++ rest.flatMap spelling).set before.length ' ') _ = _
      rw [mend]
      rfl
    | _ => rfl

theorem filterMap_token?_mended {text text' : List Char}
    (lines : ∀ offset, lineAt text offset = lineAt text' offset) (start : Nat)
    (row : List Lexeme) :
    ((place start row).filterMap fun p => p.token? text) =
      (place start (row.map mended)).filterMap fun p => p.token? text' := by
  induction row generalizing start with
  | nil => rfl
  | cons l rest ih =>
    have token : Placed.token? text ⟨l, start + l.spelling.length⟩ =
        Placed.token? text' ⟨l.mended, start + l.spelling.length⟩ := by
      unfold Placed.token?
      rw [lines]
      cases l <;> rfl
    rw [List.map_cons, place, place, length_spelling_mended, List.filterMap_cons,
      List.filterMap_cons, ← token, ih]

end Lexeme

/-! ## Errors at their places -/

namespace LexicalError.StandsAt

variable {text : List Char} {stop : Nat}

theorem stop_le {e : LexicalError} (h : e.StandsAt text stop) : stop ≤ text.length := by
  cases h with
  | unrecognized letter stop =>
    obtain ⟨inside, -⟩ := List.getElem?_eq_some_iff.mp letter
    omega
  | unclosedString stop => omega

theorem of_unclosedString {line : Int} (h : (LexicalError.unclosedString line).StandsAt text stop) :
    stop = text.length ∧ line = 1 + lineFeeds text := by
  cases h with
  | unclosedString stop => exact ⟨stop, rfl⟩

end LexicalError.StandsAt

namespace TokenStream

/-- Where every letter starts a lexeme a scan reads the whole source, and only an unclosed
string at its end is an error. -/
theorem scan_of_recognized {source : String}
    (h : ∀ letter, .unrecognized letter ∉ Lexeme.cut source.toList) :
    (ofSource source).scan.1.History source (Lexeme.cut source.toList) ∧
      ∀ e, (ofSource source).scan.2 = .error e →
        ∃ contents line, .unclosed contents ∈ Lexeme.cut source.toList ∧
          e = .unclosedString line := by
  have begun : Reached source (ofSource source) := .start
  cases scanned : (ofSource source).scan.2 with
  | ok done => exact ⟨.of_scan_ok scanned, nofun⟩
  | error e =>
    obtain ⟨before, l, rest, reached, pending, after, wrong⟩ := begun.exists_of_scan_error scanned
    obtain ⟨read, history⟩ := reached.history
    have cut := history.cut
    rw [pending] at cut
    have member : l ∈ Lexeme.cut source.toList := by simp [cut]
    cases l with
    | unrecognized letter => exact absurd member (h letter)
    | unclosed contents =>
      obtain rfl := Lexeme.nil_of_cut_eq_unclosed cut
      rw [after, cut]
      refine ⟨history.accept pending, fun e' same => ?_⟩
      cases same
      cases wrong
      exact ⟨contents, _, List.mem_append_right _ List.mem_cons_self, rfl⟩
    | _ => cases wrong

end TokenStream

/-! ## All scans together -/

/-- What the scans of a source amount to that are resumed after each of the `mishaps` and
leave the stream as `last`; `fresh` is the single scan of the source with its unrecognized
letters blanked out. -/
structure Recovered (source : String) (mishaps : List Mishap) (last : TokenStream)
    (fresh : TokenStream × Except LexicalError Unit) : Prop where
  few : mishaps.length ≤ source.length
  tokens : last.tokens = fresh.1.tokens
  line : last.line = fresh.1.line
  position : last.position = fresh.1.position
  /-- Each error is on the line of its own letters, and they come in the order of the
  source. -/
  stands : ∀ m ∈ mishaps, m.error.StandsAt source.toList m.stop
  ordered : mishaps.Pairwise fun m m' => m.stop < m'.stop
  /-- An unclosed string is the last error, and the only one of the single scan. -/
  unclosed_last : ∀ before m behind line, mishaps = before ++ m :: behind →
    m.error = .unclosedString line → behind = []
  unclosed_iff : ∀ line, (∃ m ∈ mishaps, m.error = .unclosedString line) ↔
    fresh.2 = .error (.unclosedString line)
  unclosed_only : ∀ e, fresh.2 = .error e → ∃ line, e = .unclosedString line
  error : last.error = mishaps.getLast?.map Mishap.error

namespace TokenStream.Resumes

variable {source : String} {last : TokenStream} {mishaps : List Mishap}

/-- The errors of all scans of a source are those of its lexemes, which have all been read in
the end. -/
theorem of_source (run : (ofSource source).Resumes mishaps last) :
    mishaps = ((Lexeme.place 0 (Lexeme.cut source.toList)).filterMap
      fun p => p.mishap? source.toList) ∧
    last.History source (Lexeme.cut source.toList) := by
  have begun : (ofSource source).History source [] := .start
  obtain ⟨last', run', history⟩ := begun.exists_resumes
  obtain ⟨rfl, rfl⟩ := run.unique run'
  exact ⟨rfl, history⟩

/-- With its unrecognized letters blanked out the source is cut where it was cut. -/
theorem cut_blankedSource (run : (ofSource source).Resumes mishaps last) :
    Lexeme.cut (blankedSource source mishaps).toList =
      (Lexeme.cut source.toList).map Lexeme.mended ∧
    List.Forall₂ Blanked source.toList (blankedSource source mishaps).toList := by
  have mend := Lexeme.blankOut_place source.toList [] (Lexeme.cut source.toList)
  rw [List.length_nil, ← run.of_source.1, List.nil_append, List.nil_append,
    Lexeme.flatMap_spelling_cut] at mend
  rw [blankedSource, String.toList_ofList, mend]
  exact Lexeme.cut_mended source.toList

theorem standsAt_of_source (run : (ofSource source).Resumes mishaps last) :
    ∀ m ∈ mishaps, m.error.StandsAt source.toList m.stop :=
  run.standsAt .start

theorem ordered (run : (ofSource source).Resumes mishaps last) :
    mishaps.Pairwise fun m m' => m.stop < m'.stop := by
  have full : ∀ l ∈ Lexeme.cut source.toList, l.spelling ≠ [] := fun l member =>
    (Lexeme.readable_of_mem_cut member).spelling_ne_nil
  rw [run.of_source.1, List.pairwise_filterMap]
  refine (Lexeme.pairwise_stop_place_lt full 0).imp fun lt m first m' later => ?_
  obtain ⟨e, -, rfl⟩ := Option.map_eq_some_iff.mp first
  obtain ⟨e', -, rfl⟩ := Option.map_eq_some_iff.mp later
  exact lt

/-- No lexeme has more than one error, and each takes up a letter of the source. -/
theorem length_le (run : (ofSource source).Resumes mishaps last) :
    mishaps.length ≤ source.length := by
  rw [run.of_source.1, ← String.length_toList]
  calc (List.filterMap _ (Lexeme.place 0 (Lexeme.cut source.toList))).length
      ≤ (Lexeme.place 0 (Lexeme.cut source.toList)).length := List.length_filterMap_le _ _
    _ = (Lexeme.cut source.toList).length := Lexeme.length_place 0 _
    _ ≤ source.toList.length := Lexeme.length_cut_le _

/-- Among the errors is an unclosed string just when it is a lexeme of the source. -/
theorem exists_unclosed_iff (run : (ofSource source).Resumes mishaps last) :
    (∃ m ∈ mishaps, ∃ line, m.error = .unclosedString line) ↔
      ∃ contents, .unclosed contents ∈ Lexeme.cut source.toList := by
  rw [run.of_source.1]
  constructor
  · intro reported
    obtain ⟨m, member, line, error⟩ := reported
    obtain ⟨p, place, mishap⟩ := List.mem_filterMap.mp member
    obtain ⟨e, wrong, rfl⟩ := Option.map_eq_some_iff.mp mishap
    have among := Lexeme.lexeme_mem_of_mem_place place
    rw [show e = _ from error] at wrong
    obtain ⟨l, stop⟩ := p
    cases l with
    | unclosed contents => exact ⟨contents, among⟩
    | _ => cases wrong
  · intro known
    obtain ⟨contents, member⟩ := known
    obtain ⟨⟨l, stop⟩, place, same⟩ := Lexeme.exists_mem_place member 0
    subst same
    exact ⟨_, List.mem_filterMap.mpr ⟨_, place, rfl⟩, _, rfl⟩

/-- The single scan of the blanked source reads all of it, and fails only for an unclosed
string of the source. -/
theorem scan_blankedSource (run : (ofSource source).Resumes mishaps last) :
    (ofSource (blankedSource source mishaps)).scan.1.History (blankedSource source mishaps)
      ((Lexeme.cut source.toList).map Lexeme.mended) ∧
    ∀ e, (ofSource (blankedSource source mishaps)).scan.2 = .error e →
      ∃ contents line, .unclosed contents ∈ Lexeme.cut source.toList ∧
        e = .unclosedString line := by
  obtain ⟨cut, -⟩ := run.cut_blankedSource
  have recognized : ∀ letter,
      .unrecognized letter ∉ Lexeme.cut (blankedSource source mishaps).toList := by
    intro letter member
    rw [cut] at member
    obtain ⟨l, -, same⟩ := List.mem_map.mp member
    cases l <;> cases same
  obtain ⟨history, failed⟩ := scan_of_recognized recognized
  rw [cut] at history failed
  refine ⟨history, fun e error => ?_⟩
  obtain ⟨contents, line, member, same⟩ := failed e error
  obtain ⟨l, among, mended⟩ := List.mem_map.mp member
  have l_eq : l = .unclosed contents := by cases l <;> first | exact mended | cases mended
  exact ⟨contents, line, l_eq ▸ among, same⟩

/-- An unclosed string is reported just when it is the error of the single scan of the
blanked source, on the same line. -/
theorem unclosed_iff (run : (ofSource source).Resumes mishaps last) (line : Int) :
    (∃ m ∈ mishaps, m.error = .unclosedString line) ↔
      (ofSource (blankedSource source mishaps)).scan.2 = .error (.unclosedString line) := by
  obtain ⟨cut, blanked⟩ := run.cut_blankedSource
  -- on both sides the line is the last one, which blanking out keeps
  have lastLine : ∀ m ∈ mishaps, ∀ line, m.error = .unclosedString line →
      line = 1 + lineFeeds source.toList := by
    intro m member line error
    have stands := run.standsAt_of_source m member
    rw [error] at stands
    exact stands.of_unclosedString.2
  have lastLine' : ∀ line, (ofSource (blankedSource source mishaps)).scan.2 =
      .error (.unclosedString line) → line = 1 + lineFeeds source.toList := by
    intro line failed
    rw [Text.lineFeeds_blanked blanked]
    exact (Reached.error_standsAt .start failed).of_unclosedString.2
  constructor
  · intro reported
    obtain ⟨m, member, error⟩ := reported
    obtain ⟨contents, among⟩ := run.exists_unclosed_iff.mp ⟨m, member, line, error⟩
    cases scanned : (ofSource (blankedSource source mishaps)).scan.2 with
    | ok done =>
      have sound := class?_of_readAll_ok scanned (.unclosed contents)
      rw [show (ofSource (blankedSource source mishaps)).pending = _ from cut] at sound
      obtain ⟨k, class_⟩ := sound (List.mem_map.mpr ⟨_, among, rfl⟩)
      cases class_
    | error e =>
      obtain ⟨_, line', -, rfl⟩ := run.scan_blankedSource.2 e scanned
      rw [lastLine m member line error, lastLine' line' scanned]
  · intro failed
    obtain ⟨contents, _, among, -⟩ := run.scan_blankedSource.2 _ failed
    obtain ⟨m, member, line', error⟩ := run.exists_unclosed_iff.mpr ⟨contents, among⟩
    refine ⟨m, member, ?_⟩
    rw [error, lastLine m member line' error, lastLine' line failed]

/-- An unclosed string takes up all the source behind it, so that no error comes later. -/
theorem unclosed_last (run : (ofSource source).Resumes mishaps last) {before behind : List Mishap}
    {m : Mishap} {line : Int} (split : mishaps = before ++ m :: behind)
    (error : m.error = .unclosedString line) : behind = [] := by
  have stands := run.standsAt_of_source
  have ordered := run.ordered
  rw [split] at stands ordered
  obtain ⟨stands, later⟩ := List.forall_mem_cons.mp (List.forall_mem_append.mp stands).2
  obtain ⟨ordered, -⟩ := List.pairwise_cons.mp (List.pairwise_append.mp ordered).2.1
  rw [error] at stands
  refine List.eq_nil_iff_forall_not_mem.mpr fun m' member => ?_
  have ends := stands.of_unclosedString.1
  have further := ordered m' member
  have inside := (later m' member).stop_le
  omega

end TokenStream.Resumes

open TokenStream (ofSource)

/-- However often a scan of a source fails, resumed scans come to an end, and together they
find what a single scan finds in the source with its unrecognized letters blanked out. -/
theorem resumed_scans_recover (source : String) :
    (∃ mishaps last, (ofSource source).Resumes mishaps last) ∧
    ∀ mishaps last, (ofSource source).Resumes mishaps last →
      Recovered source mishaps last (ofSource (blankedSource source mishaps)).scan := by
  refine ⟨?_, fun mishaps last run => ?_⟩
  · have begun : (ofSource source).History source [] := .start
    obtain ⟨last, run, -⟩ := begun.exists_resumes
    exact ⟨_, last, run⟩
  obtain ⟨places, history⟩ := run.of_source
  obtain ⟨fresh, only⟩ := run.scan_blankedSource
  obtain ⟨-, blanked⟩ := run.cut_blankedSource
  have position : last.position = (ofSource (blankedSource source mishaps)).scan.1.position := by
    rw [history.position, fresh.position, ← run.cut_blankedSource.1, Lexeme.flatMap_spelling_cut,
      Lexeme.flatMap_spelling_cut]
    exact blanked.length_eq
  refine ⟨run.length_le, ?_, ?_, position, run.standsAt_of_source, run.ordered,
    fun before m behind line split error => run.unclosed_last split error, run.unclosed_iff,
    ?_, ?_⟩
  · rw [← Array.toList_inj, history.tokens, fresh.tokens]
    exact Lexeme.filterMap_token?_mended (Text.lineAt_blanked blanked) 0 _
  · rw [history.line, fresh.line, position, Text.lineAt_blanked blanked]
  · intro e failed
    obtain ⟨_, line, -, same⟩ := only e failed
    exact ⟨line, same⟩
  · rw [run.error]
    exact Option.or_none

theorem resumed_scans_recover_unclosed : ∃ last, Recovered "nil#é\n\"a"
    [⟨.unrecognized '#' 1, 4⟩, ⟨.unrecognized 'é' 1, 5⟩, ⟨.unclosedString 2, 8⟩] last
    (ofSource "nil  \n\"a").scan := by
  have begun : (ofSource "nil#é\n\"a").History "nil#é\n\"a" [] := .start
  obtain ⟨last, run, -⟩ := begun.exists_resumes
  have mishaps : (Lexeme.place 0 (Lexeme.cut "nil#é\n\"a".toList)).filterMap
      (fun p => p.mishap? "nil#é\n\"a".toList) =
      [⟨.unrecognized '#' 1, 4⟩, ⟨.unrecognized 'é' 1, 5⟩, ⟨.unclosedString 2, 8⟩] := by
    decide +kernel
  have recovered := (resumed_scans_recover "nil#é\n\"a").2 _ last run
  have blanked : blankedSource "nil#é\n\"a" [⟨.unrecognized '#' 1, 4⟩,
      ⟨.unrecognized 'é' 1, 5⟩, ⟨.unclosedString 2, 8⟩] = "nil  \n\"a" := by decide +kernel
  rw [show (ofSource "nil#é\n\"a").position = 0 from rfl,
    show (ofSource "nil#é\n\"a").pending = Lexeme.cut "nil#é\n\"a".toList from rfl, mishaps,
    blanked] at recovered
  exact ⟨last, recovered⟩

end LoxSyntax
