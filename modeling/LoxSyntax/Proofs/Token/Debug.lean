import LoxSyntax.Proofs.Text.Quoted
import LoxSyntax.Proofs.Token.Text

/-!
# Debug forms of tokens

A listing and a debug form show the text that a token was read from in quotes, and the quotes
say where it ends. So either settles a token that a scan has found: the text settles the kind
and the value, whether or not they are shown (`Token.Scanned.eq_of_lexeme`), and the line
stands on its own.

* `Token.Scanned.eq_of_debug_append`: the debug form, with any text behind it, settles the
  token and where the form ends.
* `Token.Scanned.listing_eq_iff`: a listing settles the token.
* `Token.all_isPrintable_listing`: every token is listed on one line.
-/

namespace LoxSyntax

open Text (isPrintable)

/-! ## Printable forms -/

theorem all_isPrintable_of_isDigit {w : List Char} (h : ∀ c ∈ w, c.isDigit = true) :
    w.all isPrintable = true :=
  List.all_eq_true.mpr fun c member => Text.isPrintable_of_isDigit (h c member)

theorem all_isPrintable_integerText (i : Int) : (integerText i).toList.all isPrintable = true := by
  refine List.all_eq_true.mpr fun c member => ?_
  rcases eq_minus_or_isDigit_of_mem_integerText member with rfl | digit
  · rfl
  · exact Text.isPrintable_of_isDigit digit

namespace Numeral

variable {n : Numeral}

theorem all_isPrintable_zeros (count : Nat) : (zeros count).all isPrintable = true :=
  all_isPrintable_of_isDigit fun _ => isDigit_of_mem_zeros

theorem Proper.all_isPrintable_positionalText (proper : n.Proper) (keepsFraction : Bool) :
    (n.positionalText keepsFraction).all isPrintable = true := by
  have whole := all_isPrintable_of_isDigit proper.digits_whole.2
  have fraction : (n.fraction keepsFraction).all isPrintable = true :=
    all_isPrintable_of_isDigit fun _ => proper.isDigit_of_mem_fraction
  rw [positionalText_eq proper, plainText, List.all_append, whole, Bool.true_and]
  split
  · rfl
  · rw [List.all_cons, fraction]
    rfl

theorem all_isPrintable_exponentText (exponent : Int) :
    (exponentText exponent).all isPrintable = true := by
  have digits : (digitsOf exponent.natAbs).all isPrintable = true :=
    all_isPrintable_of_isDigit fun _ => isDigit_of_mem_digitsOf
  unfold exponentText
  dsimp only
  rw [List.cons_append, List.all_cons, List.all_append, all_isPrintable_zeros, digits]
  split <;> rfl

theorem Proper.all_isPrintable_scientificText (proper : n.Proper) :
    n.scientificText.all isPrintable = true := by
  have digits := all_isPrintable_of_isDigit proper.digits
  unfold scientificText
  dsimp only
  rw [List.all_append, List.all_cons, all_isPrintable_exponentText]
  split
  · rename_i first second rest same
    rw [same, List.all_cons] at digits
    rw [List.all_cons, List.all_cons, (Bool.and_eq_true_iff.mp digits).1,
      (Bool.and_eq_true_iff.mp digits).2]
    rfl
  · rw [digits]
    rfl

theorem Proper.all_isPrintable_text (proper : n.Proper) (layout : NumberLayout) :
    (n.text layout).all isPrintable = true := by
  unfold text
  split
  · exact proper.all_isPrintable_positionalText _
  · exact proper.all_isPrintable_scientificText

end Numeral

/-- The texts of numbers are printable, whatever the format. -/
theorem Binary64.all_isPrintable_text (x : Binary64) (layout : NumberLayout) :
    (x.text layout).toList.all isPrintable = true := by
  unfold text
  split
  · rfl
  have body : (if x.isFinite then (Numeral.ofDecimal x.shortest).text layout
      else "inf".toList).all isPrintable = true := by
    split
    · exact (Numeral.proper_ofDecimal _).all_isPrintable_text layout
    · rfl
  dsimp only
  rw [String.toList_ofList]
  split
  · rw [List.all_cons, body]
    rfl
  · exact body

theorem Value.all_isPrintable_debug (v : Value) : v.debug.toList.all isPrintable = true := by
  cases v with
  | absent => rfl
  | truth b => cases b <;> rfl
  | text s => exact Text.all_isPrintable_quoted _
  | number x => exact x.all_isPrintable_text .debug

namespace Kind

/-- The name of a kind is made of capitals and underscores. -/
theorem all_name (kind : Kind) : kind.name.toList.all (fun c => c.isUpper || c == '_') = true := by
  cases kind with
  | keyword word => cases word <;> rfl
  | _ => rfl

theorem not_mem_name {c : Char} (h : (c.isUpper || c == '_') = false) (kind : Kind) :
    c ∉ kind.name.toList := fun member => by
  have letter := List.all_eq_true.mp kind.all_name c member
  rw [h] at letter
  cases letter

theorem all_isPrintable_name (kind : Kind) : kind.name.toList.all isPrintable = true := by
  cases kind with
  | keyword word => cases word <;> rfl
  | _ => rfl

end Kind

namespace Token

theorem all_isPrintable_summary (t : Token) : t.summary.toList.all isPrintable = true := by
  have name := t.kind.all_isPrintable_name
  have lexeme := Text.all_isPrintable_quoted t.lexeme
  have value := t.value.all_isPrintable_debug
  have arrow : " -> ".toList.all isPrintable = true := rfl
  unfold summary
  split
  · simp only [String.toList_append, List.all_append, name, lexeme]
    rfl
  · simp only [String.toList_append, List.all_append, name, lexeme, arrow, value]
    rfl

/-- Every character of the listing of a token is printable, whatever the token. -/
theorem all_isPrintable_listing (t : Token) : t.listing.toList.all isPrintable = true := by
  have column (width : Nat) : (List.replicate width ' ').all isPrintable = true :=
    List.all_eq_true.mpr fun c member => by rw [List.eq_of_mem_replicate member]; rfl
  unfold listing padLeft
  simp only [String.toList_append, String.toList_ofList, List.all_append, column,
    all_isPrintable_integerText, all_isPrintable_summary]
  rfl

/-! ## Unique reading -/

/-- A debug form in front of another text. -/
theorem toList_debug_append (t : Token) (rest : List Char) :
    t.debug.toList ++ rest = "Token(".toList ++ (t.kind.name.toList ++
      ',' :: ' ' :: ((Text.quoted t.lexeme).toList ++ (", ".toList ++ (t.value.debug.toList ++
        (", line=".toList ++ ((integerText t.line).toList ++ ')' :: rest)))))) := by
  simp [debug]

/-- A listing shows the line and then the quoted text. -/
theorem exists_toList_listing (t : Token) :
    ∃ width tail, t.listing.toList = List.replicate width ' ' ++ ((integerText t.line).toList ++
      ' ' :: (t.kind.name.toList ++ '(' :: ((Text.quoted t.lexeme).toList ++ tail))) := by
  unfold listing padLeft summary
  split
  · exact ⟨_, _, by simp; rfl⟩
  · exact ⟨_, _, by simp; rfl⟩

/-- A blank column ends where the number in it starts. -/
theorem column_unique {width width' : Nat} {i j : Int} {rest rest' : List Char}
    (same : List.replicate width ' ' ++ ((integerText i).toList ++ rest) =
      List.replicate width' ' ' ++ ((integerText j).toList ++ rest')) :
    (integerText i).toList ++ rest = (integerText j).toList ++ rest' := by
  have bare (width : Nat) (i : Int) (rest : List Char) :
      (List.replicate width ' ' ++ ((integerText i).toList ++ rest)).dropWhile (· == ' ') =
        (integerText i).toList ++ rest := by
    have blank : ∀ c ∈ List.replicate width ' ', (c == ' ') = true := fun c member => by
      rw [List.eq_of_mem_replicate member]
      rfl
    rw [List.dropWhile_append_of_pos blank]
    cases text : (integerText i).toList with
    | nil => exact absurd text (integerText_ne_nil i)
    | cons c more =>
      have member : c ∈ (integerText i).toList := text ▸ List.mem_cons_self
      refine List.dropWhile_cons_of_neg fun space => ?_
      obtain rfl : c = ' ' := beq_iff_eq.mp space
      exact not_mem_integerText (by decide) rfl i member
  rw [← bare width i rest, same, bare]

namespace Scanned

variable {t u : Token}

/-- A scanned token is settled by its line and the text it was read from. -/
theorem eq_of_lexeme (h : t.Scanned) (h' : u.Scanned) (lexeme : t.lexeme = u.lexeme)
    (line : t.line = u.line) : t = u := by
  unfold Scanned at h
  rw [lexeme] at h
  obtain ⟨kind, value⟩ := Lexeme.Denotes.unique h h'
  rw [Token.mk.injEq]
  exact ⟨kind, lexeme, value, line⟩

/-- The debug form of a scanned token settles the token and where the form ends. -/
theorem eq_of_debug_append (h : t.Scanned) (h' : u.Scanned) {rest rest' : List Char}
    (same : t.debug.toList ++ rest = u.debug.toList ++ rest') : t = u ∧ rest = rest' := by
  rw [toList_debug_append, toList_debug_append] at same
  obtain ⟨-, behind⟩ := Text.field_unique (Kind.not_mem_name rfl _) (Kind.not_mem_name rfl _)
    (List.append_cancel_left same)
  obtain ⟨lexeme, behind⟩ := Text.quoted_unique (List.cons.inj behind).2
  have meaning : t.value = u.value := by
    unfold Scanned at h
    rw [lexeme] at h
    exact (Lexeme.Denotes.unique h h').2
  rw [meaning] at behind
  have line := List.append_cancel_left (List.append_cancel_left (List.append_cancel_left behind))
  have free := not_mem_integerText (c := ')') (by decide) rfl
  obtain ⟨lines, ends⟩ := Text.field_unique (free _) (free _) line
  exact ⟨h.eq_of_lexeme h' lexeme (integerText_injective (String.toList_inj.mp lines)), ends⟩

/-- The listing of a scanned token settles the token. -/
theorem listing_eq_iff (h : t.Scanned) (h' : u.Scanned) : t.listing = u.listing ↔ t = u := by
  refine ⟨fun same => ?_, congrArg listing⟩
  obtain ⟨width, tail, first⟩ := t.exists_toList_listing
  obtain ⟨width', tail', second⟩ := u.exists_toList_listing
  have texts := congrArg String.toList same
  rw [first, second] at texts
  have free := not_mem_integerText (c := ' ') (by decide) rfl
  obtain ⟨lines, behind⟩ := Text.field_unique (free _) (free _) (column_unique texts)
  obtain ⟨-, behind⟩ := Text.field_unique (Kind.not_mem_name rfl _) (Kind.not_mem_name rfl _) behind
  obtain ⟨lexeme, -⟩ := Text.quoted_unique behind
  exact h.eq_of_lexeme h' lexeme (integerText_injective (String.toList_inj.mp lines))

/-- Equality of scanned tokens, field by field, is equality. -/
theorem same_iff (h : t.Scanned) (h' : u.Scanned) : t.same u = true ↔ t = u :=
  same_iff_of_denotes h h'

end Scanned

/-! ## Rows of tokens -/

variable {ts us : List Token}

/-- Rows of scanned tokens are equal token by token and field by field just when they are
equal. -/
theorem sameAll_iff (h : ∀ t ∈ ts, t.Scanned) (h' : ∀ u ∈ us, u.Scanned) :
    sameAll ts us = true ↔ ts = us := by
  induction ts generalizing us with
  | nil => cases us <;> simp [sameAll]
  | cons t ts ih =>
    cases us with
    | nil => simp [sameAll]
    | cons u us =>
      obtain ⟨first, later⟩ := List.forall_mem_cons.mp h
      obtain ⟨first', later'⟩ := List.forall_mem_cons.mp h'
      rw [sameAll, Bool.and_eq_true_iff, first.same_iff first', ih later later', List.cons.injEq]

/-- The listing of a row of scanned tokens settles the row. -/
theorem map_listing_eq_iff (h : ∀ t ∈ ts, t.Scanned) (h' : ∀ u ∈ us, u.Scanned) :
    ts.map listing = us.map listing ↔ ts = us := by
  induction ts generalizing us with
  | nil => cases us <;> simp
  | cons t ts ih =>
    cases us with
    | nil => simp
    | cons u us =>
      obtain ⟨first, later⟩ := List.forall_mem_cons.mp h
      obtain ⟨first', later'⟩ := List.forall_mem_cons.mp h'
      rw [List.map_cons, List.map_cons, List.cons.injEq, first.listing_eq_iff first',
        ih later later', List.cons.injEq]

end Token

end LoxSyntax
