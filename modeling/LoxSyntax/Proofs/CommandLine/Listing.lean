import LoxSyntax.Proofs.CommandLine.Agreement
import LoxSyntax.Proofs.Expr.Debug

/-!
# Listings and debug forms

The tokens that scans of a source have found are scanned tokens, wherever an error has stopped
them, so their listing settles them (`TokenStream.Reached.listing_eq_iff`); and no entry of it
reaches over the end of a line, so that a run with `--tokens` lists them one to a line
(`CommandLine.lineFeeds_lines_listing`). Together with the debug forms of trees this is
`debug_forms_faithful`.
-/

namespace LoxSyntax

namespace TokenStream

variable {a b : String} {s t : TokenStream}

theorem Reached.scanned (h : Reached a s) : ∀ token ∈ s.tokens.toList, token.Scanned := by
  obtain ⟨read, history⟩ := h.history
  exact fun token member => history.scanned member

/-- Streams list their tokens alike just when they have found the same tokens. -/
theorem Reached.listing_eq_iff (h : Reached a s) (h' : Reached b t) :
    s.listing = t.listing ↔ s.tokens = t.tokens :=
  (Token.map_listing_eq_iff h.scanned h'.scanned).trans Array.toList_inj

/-- Equality of the tokens of streams, token by token and field by field, is equality. -/
theorem Reached.sameAll_iff (h : Reached a s) (h' : Reached b t) :
    Token.sameAll s.tokens.toList t.tokens.toList = true ↔ s.tokens = t.tokens :=
  (Token.sameAll_iff h.scanned h'.scanned).trans Array.toList_inj

/-- An entry of a listing stands on one line. -/
theorem printable_of_mem_listing {entry : String} (h : entry ∈ s.listing) {c : Char}
    (member : c ∈ entry.toList) : c ≠ '\n' ∧ c ≠ '\r' ∧ Text.isPrintable c = true := by
  obtain ⟨token, -, rfl⟩ := List.mem_map.mp h
  have printable := List.all_eq_true.mp token.all_isPrintable_listing c member
  refine ⟨?_, ?_, printable⟩
  · rintro rfl
    cases printable
  · rintro rfl
    cases printable

end TokenStream

namespace CommandLine

/-- The listing of a row of tokens has a line for each. -/
theorem lineFeeds_lines_listing (tokens : List Token) :
    Text.lineFeeds (lines (tokens.map Token.listing)).toList = tokens.length := by
  rw [lineFeeds_lines, List.length_map]
  intro text member feed
  obtain ⟨token, -, rfl⟩ := List.mem_map.mp member
  cases List.all_eq_true.mp token.all_isPrintable_listing _ feed

/-- What a run that lists the tokens of a source writes. -/
theorem exists_run_listing {d : Directory} {source : String} {arguments : List String}
    {o : Options} {tokens : Array Token} (held : d.Holds o.source source)
    (asked : Invocation.ofArguments arguments = .ok (.run o)) (listing : o.tokens = true)
    (scanned : tokenize source = .ok tokens) :
    ∃ r, run d arguments = .ok r ∧
      r.stdout = lines (tokens.toList.map Token.listing) ++ printedOf source := by
  obtain ⟨records, -, answers⟩ := exists_sourceLog_answers source
  refine ⟨_, run_of_asked asked held, ?_⟩
  rw [(answers o).stdout, listingOf, scanned]
  dsimp only
  rw [if_pos listing]

end CommandLine

/-- Debug forms are faithful and of one line. Of two sources, the tokens that scans have found
are listed alike just when they are equal, and so it is with the debug forms of their trees. A
listing has one entry for each token and no entry holds anything but printable characters, so
a run that lists the tokens of a source writes one line for each of them. -/
theorem debug_forms_faithful (a b : String) :
    (∀ s t, TokenStream.Reached a s → TokenStream.Reached b t →
      (s.listing = t.listing ↔ Token.sameAll s.tokens.toList t.tokens.toList = true) ∧
        (s.listing = t.listing ↔ s.tokens = t.tokens)) ∧
    (∀ e₁ e₂, parseSource a = .ok e₁ → parseSource b = .ok e₂ →
      (e₁.debug = e₂.debug ↔ e₁.same e₂ = true) ∧ (e₁.debug = e₂.debug ↔ e₁ = e₂)) ∧
    (∀ s, TokenStream.Reached a s → s.listing.length = s.count ∧
      ∀ entry ∈ s.listing, ∀ c ∈ entry.toList,
        c ≠ '\n' ∧ c ≠ '\r' ∧ Text.isPrintable c = true) ∧
    ∀ (d : CommandLine.Directory) (arguments : List String) (o : CommandLine.Options)
      (tokens : Array Token), d.Holds o.source a →
      CommandLine.Invocation.ofArguments arguments = .ok (.run o) → o.tokens = true →
      tokenize a = .ok tokens →
      ∃ r listed, CommandLine.run d arguments = .ok r ∧
        r.stdout = listed ++ CommandLine.printedOf a ∧
        listed = CommandLine.lines (tokens.toList.map Token.listing) ∧
        Text.lineFeeds listed.toList = tokens.size := by
  refine ⟨fun s t first second => ?_, fun e₁ e₂ first second => ?_, fun s _ => ?_, ?_⟩
  · have listings := first.listing_eq_iff second
    exact ⟨listings.trans (first.sameAll_iff second).symm, listings⟩
  · have legible := Expr.legible_of_parseSource first
    have legible' := Expr.legible_of_parseSource second
    have debugs := legible.debug_eq_iff legible'
    exact ⟨debugs.trans (legible.same_iff legible').symm, debugs⟩
  · exact ⟨s.length_listing, fun entry member c inside =>
      TokenStream.printable_of_mem_listing member inside⟩
  · intro d arguments o tokens held asked listing scanned
    obtain ⟨r, left, stdout⟩ := CommandLine.exists_run_listing held asked listing scanned
    refine ⟨r, _, left, stdout, rfl, ?_⟩
    rw [CommandLine.lineFeeds_lines_listing, Array.length_toList]

/-- A string over two lines and a string with a backslash in it are listed apart, and the first
one is listed on one line. -/
theorem debug_forms_faithful_string :
    let d : CommandLine.Directory := [(["e.lox"], .file [0x22, 0x31, 0x0A, 0x32, 0x22])]
    let one := (TokenStream.ofSource "\"1\n2\"").scan.1
    let two := (TokenStream.ofSource "\"1\\n2\"").scan.1
    let e₁ : Expr := .literal ⟨.string, "\"1\n2\"", .text "1\n2", 2⟩
    let e₂ : Expr := .literal ⟨.string, "\"1\\n2\"", .text "1\\n2", 1⟩
    parseSource "\"1\n2\"" = .ok e₁ ∧ parseSource "\"1\\n2\"" = .ok e₂ ∧
      one.listing ≠ two.listing ∧ e₁.debug ≠ e₂.debug ∧
      one.listing = ["   2 STRING('\"1\\n2\"' -> '1\\n2')"] ∧
      (∀ entry ∈ one.listing, ∀ c ∈ entry.toList,
        c ≠ '\n' ∧ c ≠ '\r' ∧ Text.isPrintable c = true) ∧
      ∃ r listed, CommandLine.run d ["--tokens", "e.lox"] = .ok r ∧
        r.stdout = listed ++ "\"1\n2\"\n" ∧ Text.lineFeeds listed.toList = 1 := by
  intro d one two e₁ e₂
  have first : parseSource "\"1\n2\"" = .ok e₁ := by decide +kernel
  have second : parseSource "\"1\\n2\"" = .ok e₂ := by decide +kernel
  have reached : TokenStream.Reached "\"1\n2\"" one := TokenStream.Reached.start.scan
  have reached' : TokenStream.Reached "\"1\\n2\"" two := TokenStream.Reached.start.scan
  have held : d.Holds "e.lox" "\"1\n2\"" := ⟨by simp, _, by rfl, by rfl⟩
  have scanned : tokenize "\"1\n2\"" =
      .ok #[⟨.string, "\"1\n2\"", .text "1\n2", 2⟩] := by decide +kernel
  obtain ⟨listings, debugs, entries, run⟩ := debug_forms_faithful "\"1\n2\"" "\"1\\n2\""
  refine ⟨first, second, ?_, ?_, by decide +kernel, (entries one reached).2, ?_⟩
  · exact fun same => absurd ((listings one two reached reached').2.mp same) (by decide +kernel)
  · exact fun same => absurd ((debugs e₁ e₂ first second).2.mp same) (by decide)
  · obtain ⟨r, listed, left, stdout, -, feeds⟩ := run d ["--tokens", "e.lox"]
      { source := "e.lox", tokens := true } _ held (by rfl) rfl scanned
    refine ⟨r, listed, left, ?_, feeds⟩
    rw [stdout, CommandLine.printedOf, first]
    rfl

end LoxSyntax
