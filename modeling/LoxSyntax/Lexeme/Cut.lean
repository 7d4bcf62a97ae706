import LoxSyntax.Lexeme.Basic

/-!
# Cutting a source into lexemes

`Lexeme.cut` takes the lexeme at the head of a text, drops what it covers, and
goes on with the rest. The definition walks the text letter by letter and keeps
count of the letters that the last lexeme still covers.

* `Lexeme.cut_cons`: the cut of a text that is not empty; `Lexeme.cut_induction`: induction
  along a cut.
* `Lexeme.spelling_read_append`: a lexeme covers the head of the text it is read
  from.
* `Lexeme.flatMap_spelling_cut`: nothing is lost and nothing is read twice.
-/

namespace LoxSyntax.Lexeme

/-- Cuts a text after `covered` further letters, behind the lexemes already cut,
which are given last one first. -/
def cutOnto (done : List Lexeme) : (covered : Nat) → List Char → List Lexeme
  | _, [] => done.reverse
  | covered + 1, _ :: rest => cutOnto done covered rest
  | 0, first :: rest =>
    let l := read first rest
    cutOnto (l :: done) (l.spelling.length - 1) rest

/-- The row of lexemes that a text consists of. -/
def cut (text : List Char) : List Lexeme :=
  cutOnto [] 0 text

/-! ## The cut as a recursion over lexemes -/

theorem cutOnto_eq (done : List Lexeme) (covered : Nat) (text : List Char) :
    cutOnto done covered text = done.reverse ++ cut (text.drop covered) := by
  have shift : ∀ (text : List Char) (done : List Lexeme) (covered : Nat),
      cutOnto done covered text = done.reverse ++ cutOnto [] covered text := by
    intro text
    induction text with
    | nil => intro done covered; cases covered <;> simp [cutOnto]
    | cons first rest ih =>
      intro done covered
      cases covered with
      | succ covered => simp only [cutOnto]; exact ih done covered
      | zero =>
        simp only [cutOnto]
        rw [ih (read first rest :: done), ih [read first rest]]
        simp
  have skip : ∀ (text : List Char) (covered : Nat),
      cutOnto [] covered text = cutOnto [] 0 (text.drop covered) := by
    intro text
    induction text with
    | nil => intro covered; cases covered <;> simp [cutOnto]
    | cons first rest ih =>
      intro covered
      cases covered with
      | zero => rfl
      | succ covered => simp only [cutOnto, List.drop_succ_cons]; exact ih covered
  rw [shift, skip, cut]

theorem cut_nil : cut [] = [] := rfl

/-- The lexeme at the head of a text is cut off first. -/
theorem cut_cons (first : Char) (rest : List Char) :
    cut (first :: rest) =
      read first rest :: cut (rest.drop ((read first rest).spelling.length - 1)) := by
  rw [cut, cutOnto, cutOnto_eq]
  simp

/-! ## Lexemes cover the text -/

/-- What a lexeme covers starts with the letter it is read from, and the rest of
it is the head of the text after that letter. -/
theorem spelling_read (first : Char) (rest : List Char) :
    ∃ more after, (read first rest).spelling = first :: more ∧ rest = more ++ after := by
  have split (p : Char → Bool) (text : List Char) :
      text = text.takeWhile p ++ text.dropWhile p := (List.takeWhile_append_dropWhile).symm
  unfold read
  split
  · exact ⟨[], rest, rfl, rfl⟩
  split
  · rename_i slash
    subst slash
    unfold readSlash
    split
    · rename_i text
      exact ⟨'/' :: text.takeWhile (· != '\n'), text.dropWhile (· != '\n'), rfl, by
        rw [List.cons_append, ← split]⟩
    · exact ⟨[], rest, rfl, rfl⟩
  split
  · rename_i quote
    subst quote
    unfold readString
    split
    · rename_i ends
      exact ⟨rest.takeWhile (· != '"'), [], rfl, by rw [← ends]; exact split _ _⟩
    · rename_i c after ends
      have closing : c = '"' := by
        have stops := List.head?_dropWhile_not (fun d : Char => d != '"') rest
        rw [ends] at stops
        simpa using stops
      subst closing
      exact ⟨rest.takeWhile (· != '"') ++ ['"'], after, rfl, by
        rw [List.append_assoc, List.singleton_append, ← ends]; exact split _ _⟩
  split
  · unfold readNumber
    refine ⟨rest.takeWhile Char.isDigit ++
      (if fractionDigits (rest.dropWhile Char.isDigit) = [] then []
        else '.' :: fractionDigits (rest.dropWhile Char.isDigit)), ?_⟩
    have whole := split Char.isDigit rest
    by_cases none : fractionDigits (rest.dropWhile Char.isDigit) = []
    · exact ⟨rest.dropWhile Char.isDigit, by simp [spelling, none], by simp [none]⟩
    · unfold fractionDigits at none ⊢
      split at none
      · rename_i tail ends
        refine ⟨tail.dropWhile Char.isDigit, by simp [spelling, none], ?_⟩
        rw [if_neg none, List.append_assoc, List.cons_append, ← split, ← ends]
        exact whole
      · exact absurd rfl none
  split
  · exact ⟨rest.takeWhile Char.isAlphanum, rest.dropWhile Char.isAlphanum, rfl, split _ _⟩
  split
  · exact ⟨[], rest, rfl, rfl⟩
  · split
    · rename_i head
      cases rest with
      | nil => cases head
      | cons c after =>
        have equal : c = '=' := by simpa using head
        subst equal
        exact ⟨['='], after, rfl, rfl⟩
    · exact ⟨[], rest, rfl, rfl⟩
  · exact ⟨[], rest, rfl, rfl⟩

/-- Every lexeme covers a letter at least. -/
theorem length_spelling_read_pos (first : Char) (rest : List Char) :
    0 < (read first rest).spelling.length := by
  obtain ⟨more, after, spelled, -⟩ := spelling_read first rest
  simp [spelled]

/-- A lexeme and what follows it make up the text. -/
theorem spelling_read_append (first : Char) (rest : List Char) :
    (read first rest).spelling ++ rest.drop ((read first rest).spelling.length - 1) =
      first :: rest := by
  obtain ⟨more, after, spelled, rfl⟩ := spelling_read first rest
  simp [spelled]

/-- Induction along a cut: what holds of a text without letters, and of any other when it
holds of what follows its first lexeme, holds of every text. -/
theorem cut_induction {motive : List Char → Prop} (nil : motive [])
    (cons : ∀ first rest, motive (rest.drop ((read first rest).spelling.length - 1)) →
      motive (first :: rest)) (text : List Char) : motive text := by
  induction size : text.length using Nat.strongRecOn generalizing text with
  | ind n ih =>
    cases text with
    | nil => exact nil
    | cons first rest =>
      refine cons first rest (ih _ ?_ _ rfl)
      simp at size ⊢
      omega

/-- The lexemes of a text cover it without gap or overlap. -/
theorem flatMap_spelling_cut (text : List Char) :
    (cut text).flatMap spelling = text := by
  induction text using cut_induction with
  | nil => rfl
  | cons first rest ih => rw [cut_cons, List.flatMap_cons, ih, spelling_read_append]

end LoxSyntax.Lexeme
