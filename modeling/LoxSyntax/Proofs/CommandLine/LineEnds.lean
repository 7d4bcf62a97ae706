import LoxSyntax.Proofs.CommandLine.Agreement
import LoxSyntax.Proofs.Text.Utf8
import LoxSyntax.Proofs.TokenStream.LineEnds

/-!
# Line ends of source files

Reading a file makes every line end a line feed, so that a source without carriage returns is
read back from its UTF-8 form whatever ends its lines in the file
(`Text.normalizeLineEnds_endLinesWith`, `CommandLine.decodeSource_encode`).
A run looks at the bytes of a file through the text they decode to alone
(`CommandLine.run_cons_file`), and a scan of a text with line ends of two letters does what a
scan of the text does. Line ends therefore matter neither in a file nor in a text
(`line_ends_do_not_matter`).
-/

namespace LoxSyntax

open Text (crlf endLinesWith joinLineEnds)

/-! ## Line ends made line feeds -/

namespace Text

theorem normalizeLineEnds_cons {c : Char} {text : List Char} (h : text.head? ≠ some '\n') :
    normalizeLineEnds (c :: text) = (if c = '\r' then '\n' else c) :: normalizeLineEnds text := by
  rw [normalizeLineEnds]
  rintro rest - rfl
  exact h rfl

/-- A carriage return alone and one in front of a line feed both become a line feed. -/
theorem normalizeLineEnds_endLinesWith {ending text : List Char}
    (known : ending ∈ [crlf, ['\r']]) (plain : '\r' ∉ text) :
    normalizeLineEnds (endLinesWith ending text) = text := by
  induction text with
  | nil => rfl
  | cons c text ih =>
    have again := ih fun later => plain (List.mem_cons_of_mem c later)
    have next : (endLinesWith ending text).head? ≠ some '\n' := by
      rcases List.mem_pair.mp known with rfl | rfl <;> exact head?_endLinesWith_ne _ text
    by_cases feed : c = '\n'
    · subst feed
      rcases List.mem_pair.mp known with rfl | rfl
      · rw [endLinesWith_crlf_lineFeed, normalizeLineEnds, again]
      · rw [endLinesWith_cons_lineFeed, List.singleton_append, normalizeLineEnds_cons next, again,
          if_pos rfl]
    · have other : c ≠ '\r' := fun same => plain (same ▸ List.mem_cons_self)
      rw [endLinesWith_cons_of_ne feed, normalizeLineEnds_cons next, again, if_neg other]

end Text

namespace CommandLine

/-- A file has the text that its letters are with every line end made a line feed. -/
theorem decodeSource_encode {text : List Char} {source : String}
    (h : Text.normalizeLineEnds text = source.toList) :
    decodeSource (Text.Utf8.encode text) = .ok source := by
  unfold decodeSource
  rw [Text.Utf8.decode_encode]
  dsimp only
  rw [h, String.ofList_toList]

/-! ## Files of the same text -/

section

variable {bytes bytes' : List UInt8} {d : Directory} {file : List String}

/-- With other bytes in a file, what is at a place is the same or the file. -/
theorem Directory.entry?_cons_file (bytes bytes' : List UInt8) (d : Directory)
    (file place : List String) :
    entry? ((file, .file bytes) :: d) place = entry? ((file, .file bytes') :: d) place ∨
      entry? ((file, .file bytes) :: d) place = some (.file bytes) ∧
        entry? ((file, .file bytes') :: d) place = some (.file bytes') := by
  unfold entry?
  rw [List.lookup_cons, List.lookup_cons]
  cases place == file with
  | true => exact .inr ⟨rfl, rfl⟩
  | false => exact .inl rfl

variable (same : decodeSource bytes = decodeSource bytes')
include same

/-- Following a path comes to the same text when a file has other bytes of the same text. -/
theorem Directory.follow_cons_file (place : Option (List String)) (components : List String) :
    (follow ((file, .file bytes) :: d) place components).bind decodeSource =
      (follow ((file, .file bytes') :: d) place components).bind decodeSource := by
  induction components generalizing place with
  | nil => rfl
  | cons component rest ih =>
    unfold follow
    split
    · exact ih place
    split
    · rfl
    cases place with
    | none =>
      dsimp only
      split
      · exact ih none
      · rfl
    | some folder =>
      dsimp only
      split
      · exact ih _
      rcases entry?_cons_file bytes bytes' d file (folder ++ [component]) with
        entry | ⟨entry, entry'⟩
      · rw [entry]
        split
        · rfl
        · exact ih _
        · rfl
        · rfl
      · rw [entry, entry']
        cases rest with
        | nil => exact same
        | cons _ _ => rfl

theorem Directory.read_cons_file (path : String) :
    (read ((file, .file bytes) :: d) path).bind decodeSource =
      (read ((file, .file bytes') :: d) path).bind decodeSource := by
  unfold read
  split
  · rfl
  split
  · rfl
  · exact follow_cons_file same _ _
  · exact follow_cons_file same _ _

/-- A run leaves the same when a file has other bytes of the same text. -/
theorem run_cons_file (arguments : List String) :
    run ((file, .file bytes) :: d) arguments = run ((file, .file bytes') :: d) arguments := by
  unfold run
  congr 1
  funext step
  cases step with
  | inl report => rfl
  | inr o =>
    dsimp only
    unfold process
    rw [Directory.read_cons_file same]

end

end CommandLine

/-- Line ends do not matter. With a carriage return in front of every line feed, a scan of a
source ends as without, and it finds the same tokens but for the line ends in strings. And where
a source has no carriage return, all command lines leave the same whether the lines of its file
end in line feeds, in carriage returns or in both. -/
theorem line_ends_do_not_matter (source : String) :
    (let one := (TokenStream.ofSource source).scan
      let two := (TokenStream.ofSource (String.ofList (endLinesWith crlf source.toList))).scan
      two.2 = one.2 ∧
        two.1.tokens.toList.map (Token.mapText joinLineEnds) = one.1.tokens.toList) ∧
    ('\r' ∉ source.toList → ∀ ending ∈ [crlf, ['\r']],
      ∀ (d : CommandLine.Directory) (file : List String) (arguments : List String),
        CommandLine.run ((file, .file (Text.Utf8.encode (endLinesWith ending source.toList))) :: d)
            arguments =
          CommandLine.run ((file, .file (Text.Utf8.encode source.toList)) :: d) arguments) := by
  refine ⟨TokenStream.scan_endLinesWith source, fun plain ending known d file arguments => ?_⟩
  apply CommandLine.run_cons_file
  rw [CommandLine.decodeSource_encode (Text.normalizeLineEnds_endLinesWith known plain),
    CommandLine.decodeSource_encode (Text.normalizeLineEnds_eq_self plain)]

/-- Behind a mark, at the end of a comment, within a string and behind it a line may end in one
letter or in two, and the run prints the same tree. -/
theorem line_ends_do_not_matter_string :
    let source := "1 / // half\n\"a\nb\"\n"
    let folder (ending : List Char) : CommandLine.Directory :=
      [(["e.lox"], .file (Text.Utf8.encode (endLinesWith ending source.toList)))]
    let plain : CommandLine.Directory := [(["e.lox"], .file (Text.Utf8.encode source.toList))]
    '\r' ∉ source.toList ∧
      CommandLine.run plain ["e.lox"] = .ok { status := 0, stdout := "(/ 1 \"a\nb\")\n" } ∧
      CommandLine.run (folder crlf) ["e.lox"] = CommandLine.run plain ["e.lox"] ∧
      CommandLine.run (folder ['\r']) ["e.lox"] = CommandLine.run plain ["e.lox"] := by
  intro source folder plain
  have none : '\r' ∉ source.toList := by decide
  have decoded := CommandLine.decodeSource_encode (Text.normalizeLineEnds_eq_self none)
  have held : plain.Holds "e.lox" source := ⟨by simp, _, by rfl, decoded⟩
  refine ⟨none, ?_, ?_, ?_⟩
  · rw [CommandLine.run_of_asked (by rfl) held]
    exact congrArg Except.ok (by decide +kernel)
  · exact (line_ends_do_not_matter source).2 none crlf (by decide) [] ["e.lox"] ["e.lox"]
  · exact (line_ends_do_not_matter source).2 none ['\r'] (by decide) [] ["e.lox"] ["e.lox"]

end LoxSyntax
