import LoxSyntax.Expr.Printed
import LoxSyntax.Proofs.Grammar.Soundness
import LoxSyntax.Proofs.Lexeme.Boundary
import LoxSyntax.Proofs.TokenStream.History
import Mathlib.Data.List.Forall2

/-!
# Lines

Line feeds are read in blanks and in strings, and a string may be cut short by the end of
the source. Wherever a scan stands, its line is one more than the line feeds before its
position (`TokenStream.LinesCounted`). So every token is on the line that its lexeme ends
on, an error is on the line of what is wrong (`LexicalError.StandsAt`), and the nodes of a
tree are on the lines of their anchors (`Expr.LinesCounted`).
-/

namespace LoxSyntax

open Text (lineAt lineFeeds)

/-! ## Tokens at their places -/

/-- The token is what the lexeme at this place of a text stands for, and is on the line that
the lexeme ends on. -/
structure Token.StandsAt (text : List Char) (t : Token) (p : Lexeme.Placed) : Prop where
  meaning : p.lexeme.meaning? = some (t.kind, t.value)
  lexeme : t.lexeme.toList = p.lexeme.spelling
  stands : t.lexeme.toList <:+ text.take p.stop
  line : t.line = lineAt text p.stop

namespace Lexeme

/-- Whether a lexeme stands for a token. -/
def Placed.hasToken (p : Placed) : Bool :=
  p.lexeme.meaning?.isSome

variable {text : List Char}

theorem Placed.standsAt_of_token? {p : Placed} {t : Token} (h : p.token? text = some t)
    (stands : p.lexeme.spelling <:+ text.take p.stop) : t.StandsAt text p := by
  obtain ⟨⟨kind, value⟩, meaning, rfl⟩ := Option.map_eq_some_iff.mp h
  refine ⟨meaning, String.toList_ofList, ?_, rfl⟩
  rw [String.toList_ofList]
  exact stands

theorem Placed.hasToken_eq_isSome (text : List Char) (p : Placed) :
    p.hasToken = (p.token? text).isSome := by
  rw [hasToken, token?, Lexeme.token?, Option.isSome_map]

/-- The tokens of lexemes that stand in a text stand at their places, one for each lexeme
that has a token. -/
theorem forall₂_standsAt {places : List Placed}
    (stand : ∀ p ∈ places, p.lexeme.spelling <:+ text.take p.stop) :
    List.Forall₂ (Token.StandsAt text) (places.filterMap fun p => p.token? text)
      (places.filter Placed.hasToken) := by
  induction places with
  | nil => exact .nil
  | cons p rest ih =>
    obtain ⟨first, later⟩ := List.forall_mem_cons.mp stand
    have has := p.hasToken_eq_isSome text
    cases token : p.token? text with
    | none =>
      rw [token] at has
      rw [List.filterMap_cons_none token, List.filter_cons_of_neg (by simp [has])]
      exact ih later
    | some t =>
      rw [token] at has
      rw [List.filterMap_cons_some token, List.filter_cons_of_pos has]
      exact .cons (Placed.standsAt_of_token? token first) (ih later)

theorem Placed.line_of_token? {p : Placed} {t : Token} (h : p.token? text = some t) :
    t.line = lineAt text p.stop := by
  obtain ⟨⟨kind, value⟩, -, rfl⟩ := Option.map_eq_some_iff.mp h
  rfl

/-- The tokens of lexemes that stand one behind the other never go back a line. -/
theorem pairwise_line {places : List Placed}
    (sorted : places.Pairwise fun p q => p.stop ≤ q.stop) :
    (places.filterMap fun p => p.token? text).Pairwise fun t u => t.line ≤ u.line := by
  rw [List.pairwise_filterMap]
  refine sorted.imp fun le t first u later => ?_
  rw [Placed.line_of_token? first, Placed.line_of_token? later]
  exact Text.lineAt_mono text le

/-! ## Lexemes in error -/

/-- A letter that starts no lexeme is no line feed. -/
theorem ne_lineFeed_of_unrecognized_mem_cut {letter : Char}
    (h : .unrecognized letter ∈ cut text) : letter ≠ '\n' := by
  induction text using cut_induction with
  | nil => cases h
  | cons first rest ih =>
    rw [cut_cons] at h
    rcases List.mem_cons.mp h with reading | later
    · intro same
      subst same
      have spelled := spelling_read first rest
      rw [← reading] at spelled
      obtain ⟨more, after, spelled, -⟩ := spelled
      obtain rfl : '\n' = first := by simpa [spelling] using (List.cons.inj spelled).1
      rw [read_of_isBlank (by decide)] at reading
      cases reading
    · exact ih later

/-- An unclosed string is the last lexeme of a text. -/
theorem nil_of_cut_eq_unclosed {before behind : List Lexeme} {contents : List Char}
    (h : cut text = before ++ .unclosed contents :: behind) : behind = [] := by
  induction text using cut_induction generalizing before with
  | nil => simp [cut_nil] at h
  | cons first rest ih =>
    rw [cut_cons] at h
    cases before with
    | cons l before =>
      obtain ⟨-, later⟩ := List.cons.inj h
      exact ih later
    | nil =>
      obtain ⟨reading, later⟩ := List.cons.inj h
      obtain rfl := contents_of_read_eq_unclosed reading
      rw [reading] at later
      simpa [spelling, cut_nil] using later.symm

end Lexeme

/-- Where the letters are that a lexical error is about, when it stops a scan at an offset,
and that its line is theirs: that of the letter, or the last one of the text. -/
inductive LexicalError.StandsAt (text : List Char) (stop : Nat) : LexicalError → Prop
  | unrecognized {letter : Char} {offset : Nat} :
    text[offset]? = some letter → stop = offset + 1 →
    StandsAt text stop (.unrecognized letter (lineAt text offset))
  | unclosedString :
    stop = text.length → StandsAt text stop (.unclosedString (1 + lineFeeds text))

namespace TokenStream

/-- The lines of a stream are those of the text: its own is that of its position, each
token found is on the line that its lexeme ends on, and the tokens never go back a line. -/
structure LinesCounted (text : List Char) (s : TokenStream) : Prop where
  line : s.line = lineAt text s.position
  tokens : ∃ read, Lexeme.cut text = read ++ s.pending ∧
    s.position = (read.flatMap Lexeme.spelling).length ∧
    List.Forall₂ (Token.StandsAt text) s.tokens.toList
      ((Lexeme.place 0 read).filter Lexeme.Placed.hasToken)
  sorted : s.tokens.toList.Pairwise fun t u => t.line ≤ u.line

variable {source : String} {s : TokenStream}

theorem History.linesCounted {read : List Lexeme} (h : s.History source read) :
    s.LinesCounted source.toList where
  line := h.line
  tokens := by
    refine ⟨read, h.cut, h.position, ?_⟩
    rw [h.tokens]
    exact Lexeme.forall₂_standsAt fun p member => h.spelling_suffix member
  sorted := by
    rw [h.tokens]
    exact Lexeme.pairwise_line (Lexeme.pairwise_stop_place 0 read)

/-- The error that stops a scan is on the line of what is wrong. -/
theorem Reached.error_standsAt {e : LexicalError} (h : Reached source s)
    (failed : s.scan.2 = .error e) : e.StandsAt source.toList s.scan.1.position := by
  obtain ⟨before, l, rest, reached, pending, after, wrong⟩ := h.exists_of_scan_error failed
  obtain ⟨read, history⟩ := reached.history
  have cut := history.cut
  have whole := history.source_eq
  have next := history.accept pending
  rw [pending] at cut whole
  rw [List.flatMap_cons, ← List.append_assoc] at whole
  rw [next.line] at wrong
  have stop : (before.accept l rest).position = before.position + l.spelling.length := rfl
  rw [after, stop]
  rw [stop] at wrong
  cases l with
  | unrecognized letter =>
    cases wrong
    have member : .unrecognized letter ∈ Lexeme.cut source.toList := by simp [cut]
    have other := Lexeme.ne_lineFeed_of_unrecognized_mem_cut member
    have line : lineAt source.toList (before.position + [letter].length) =
        lineAt source.toList before.position := by
      have none : lineFeeds [letter] = 0 := by simp [lineFeeds, other]
      rw [history.position, whole, Lexeme.spelling, Text.lineAt_add, none]
      exact Int.add_zero _
    rw [Lexeme.spelling, line]
    refine .unrecognized ?_ rfl
    rw [history.position, whole]
    simp [Lexeme.spelling]
  | unclosed contents =>
    cases wrong
    obtain rfl := Lexeme.nil_of_cut_eq_unclosed cut
    rw [List.flatMap_nil, List.append_nil] at whole
    have ends : before.position + (Lexeme.unclosed contents).spelling.length =
        source.toList.length := by
      rw [history.position, whole, List.length_append]
    rw [ends, Text.lineAt_length]
    exact .unclosedString rfl
  | blank _ => cases wrong
  | comment _ => cases wrong
  | mark _ _ => cases wrong
  | string _ => cases wrong
  | number _ _ => cases wrong
  | word _ => cases wrong

end TokenStream

/-! ## Trees -/

namespace Expr

/-- The anchors of a tree stand in order in the row of tokens that it spells; only closing
parentheses are left out. -/
theorem Spells.anchors_sublist {e : Expr} {ts : List Token} (h : e.Spells ts) :
    e.anchors.Sublist ts := by
  induction h with
  | literal token => exact .refl _
  | grouping opener closer _ _ ih => exact (ih.trans (List.sublist_append_left _ _)).cons_cons _
  | unary operator _ ih => exact ih.cons_cons _
  | binary operator _ _ ihLeft ihRight => exact ihLeft.append (ihRight.cons_cons _)

/-- Every node of a tree that spells tokens is anchored at one of them and takes its line
from there. -/
theorem Spells.exists_anchor {e : Expr} {ts : List Token} (h : e.Spells ts) {depth below : Nat}
    {node : Expr} (member : (below, node) ∈ e.nodesFrom depth) :
    ∃ t ∈ e.anchors, node.anchor? = some t ∧ node.line = t.line := by
  induction h generalizing depth with
  | literal token =>
    obtain ⟨rfl, rfl⟩ := Prod.mk.inj (List.mem_singleton.mp member)
    exact ⟨token, List.mem_singleton_self _, rfl, rfl⟩
  | grouping opener closer _ _ ih =>
    rcases List.mem_cons.mp member with root | inner
    · obtain ⟨rfl, rfl⟩ := Prod.mk.inj root
      exact ⟨opener, List.mem_cons_self, rfl, rfl⟩
    · obtain ⟨t, anchor, at_⟩ := ih inner
      exact ⟨t, List.mem_cons_of_mem _ anchor, at_⟩
  | unary operator _ ih =>
    rcases List.mem_cons.mp member with root | inner
    · obtain ⟨rfl, rfl⟩ := Prod.mk.inj root
      exact ⟨operator, List.mem_cons_self, rfl, rfl⟩
    · obtain ⟨t, anchor, at_⟩ := ih inner
      exact ⟨t, List.mem_cons_of_mem _ anchor, at_⟩
  | binary operator _ _ ihLeft ihRight =>
    rcases List.mem_cons.mp member with root | inner
    · obtain ⟨rfl, rfl⟩ := Prod.mk.inj root
      exact ⟨operator, by simp [anchors], rfl, rfl⟩
    rcases List.mem_append.mp inner with left | right
    · obtain ⟨t, anchor, at_⟩ := ihLeft left
      exact ⟨t, List.mem_append_left _ anchor, at_⟩
    · obtain ⟨t, anchor, at_⟩ := ihRight right
      exact ⟨t, List.mem_append_right _ (List.mem_cons_of_mem _ anchor), at_⟩

/-- The lines of a tree are those of the text: its anchors stand in order at places of the
text, each node is on the line that its anchor ends on, and the anchors never go back a
line. -/
structure LinesCounted (text : List Char) (e : Expr) : Prop where
  anchors : ∃ places, places.Sublist (Lexeme.place 0 (Lexeme.cut text)) ∧
    List.Forall₂ (Token.StandsAt text) e.anchors places
  nodes : ∀ depth node, (depth, node) ∈ e.nodesFrom 0 →
    ∃ t p, node.anchor? = some t ∧ p ∈ Lexeme.place 0 (Lexeme.cut text) ∧
      t.StandsAt text p ∧ node.line = lineAt text p.stop
  sorted : e.anchors.Pairwise fun t u => t.line ≤ u.line

end Expr

/-- A source is read from a stream that a scan has brought to its end. -/
theorem exists_parse_of_parseSource {source : String} {e : Expr}
    (h : parseSource source = .ok e) :
    (TokenStream.ofSource source).scan.2 = .ok () ∧
      ∃ after, Cursor.parse {} (TokenStream.ofSource source).scan.1 = (after, .ok e) := by
  unfold parseSource at h
  split at h
  · cases h
  · rename_i s scanned
    rw [scanned]
    exact ⟨rfl, _, Prod.ext rfl h⟩

/-- A tree that is read from a stream spells tokens of that stream. -/
theorem Cursor.exists_spells_of_parse {c after : Cursor} {s : TokenStream} {e : Expr}
    (h : c.parse s = (after, .ok e)) : ∃ ts, e.Spells ts ∧ ts.Sublist s.tokens.toList := by
  obtain ⟨reached, read, -⟩ := parse_eq_ok h
  have reads := reads_of_read read
  exact ⟨_, reads.spells, (List.drop_sublist _ _).trans (List.take_sublist _ _)⟩

/-- The lines of a tree that spells tokens of a stream are those of its source. -/
theorem Expr.Spells.linesCounted {source : String} {s : TokenStream} {e : Expr}
    {ts : List Token} (h : e.Spells ts) (among : ts.Sublist s.tokens.toList)
    (history : s.History source (Lexeme.cut source.toList)) : e.LinesCounted source.toList := by
  have within := h.anchors_sublist.trans among
  have stand {p : Lexeme.Placed} (member : p ∈ Lexeme.place 0 (Lexeme.cut source.toList)) :=
    history.spelling_suffix member
  refine ⟨?_, ?_, history.linesCounted.sorted.sublist within⟩
  · rw [history.tokens] at within
    obtain ⟨places, among, anchors⟩ := List.sublist_filterMap_iff.mp within
    rw [anchors]
    exact ⟨_, List.filter_sublist.trans among,
      Lexeme.forall₂_standsAt fun p member => stand (among.mem member)⟩
  · intro depth node member
    obtain ⟨t, anchor, anchored, line⟩ := h.exists_anchor member
    have found := within.mem anchor
    rw [history.tokens] at found
    obtain ⟨p, place, token⟩ := List.mem_filterMap.mp found
    have standsAt := Lexeme.Placed.standsAt_of_token? token (stand place)
    exact ⟨t, p, anchored, place, standsAt, line.trans standsAt.line⟩

/-- At every point of any scans of a source the lines of the stream, of its tokens and of
the errors are those of the source, and so are the lines of the tree that is read from
it. -/
theorem source_lines_counted (source : String) :
    (∀ s, TokenStream.Reached source s →
      s.LinesCounted source.toList ∧ TokenStream.Reached source s.scan.1 ∧
      ∀ e, s.scan.2 = .error e → e.StandsAt source.toList s.scan.1.position) ∧
    ∀ e, parseSource source = .ok e → e.LinesCounted source.toList := by
  refine ⟨fun s reached => ?_, fun e result => ?_⟩
  · obtain ⟨read, history⟩ := reached.history
    exact ⟨history.linesCounted, reached.scan, fun e failed => reached.error_standsAt failed⟩
  · obtain ⟨scanned, after, parsed⟩ := exists_parse_of_parseSource result
    obtain ⟨ts, spells, among⟩ := Cursor.exists_spells_of_parse parsed
    exact spells.linesCounted among (TokenStream.History.of_scan_ok scanned)

/-- A string over two lines is on the second one, where a letter behind it is in error; in
a tree it is an operand, and the operator behind a comment is on the third line. -/
theorem source_lines_counted_multiline :
    let failing := "\"a\nb\" #"
    let whole := "(\"a\nb\"//c\n==nil)"
    let operand : Token := ⟨.string, "\"a\nb\"", .text "a\nb", 2⟩
    let operator : Token := ⟨.equalEqual, "==", .absent, 3⟩
    let nothing : Token := ⟨.keyword .nilWord, "nil", .absent, 3⟩
    let e : Expr := .grouping (.binary (.literal operand) operator (.literal nothing))
      (some ⟨.leftParen, "(", .absent, 1⟩)
    (TokenStream.ofSource failing).scan.2 = .error (.unrecognized '#' 2) ∧
      (LexicalError.unrecognized '#' 2).StandsAt failing.toList 7 ∧
      parseSource whole = .ok e ∧ e.LinesCounted whole.toList := by
  refine ⟨by rfl, ?_, by rfl, ?_⟩
  · exact ((source_lines_counted "\"a\nb\" #").1 _ .start).2.2 _ (by rfl)
  · exact (source_lines_counted _).2 _ (by rfl)

end LoxSyntax
