import LoxSyntax.Proofs.Expr.UniqueReading
import LoxSyntax.Proofs.Token.Debug

/-!
# Debug forms of trees

The debug form of a tree shows every node with all of its tokens. It settles a tree that has
been read from a source, and it also settles where the form ends, whatever stands behind it
(`Expr.Legible.eq_of_debug_append`): the name of a form ends at its parenthesis, and a token
says itself where it ends. So, other than in the printed form, nothing is lost
(`Expr.Legible.debug_eq_iff`), and the trees are equal just when they are equal token by token
and field by field (`Expr.Legible.same_iff`).
-/

namespace LoxSyntax.Expr

/-! ## Debug forms in front of other texts -/

section Append

variable (token operator paren : Token) (inner left right : Expr) (rest : List Char)

theorem debug_literal_append :
    (literal token).debug.toList ++ rest =
      "Literal".toList ++ '(' :: ("token=".toList ++ (token.debug.toList ++ ')' :: rest)) := by
  simp [debug_literal]

theorem debug_grouping_append :
    (grouping inner (some paren)).debug.toList ++ rest =
      "Grouping".toList ++ '(' :: ("inner=".toList ++ (inner.debug.toList ++
        (", paren=".toList ++ (paren.debug.toList ++ ')' :: rest)))) := by
  simp [debug_grouping]

theorem debug_unary_append :
    (unary operator inner).debug.toList ++ rest =
      "Unary".toList ++ '(' :: ("operator=".toList ++ (operator.debug.toList ++
        (", operand=".toList ++ (inner.debug.toList ++ ')' :: rest)))) := by
  simp [debug_unary]

theorem debug_binary_append :
    (binary left operator right).debug.toList ++ rest =
      "Binary".toList ++ '(' :: ("left=".toList ++ (left.debug.toList ++
        (", operator=".toList ++ (operator.debug.toList ++
          (", right=".toList ++ (right.debug.toList ++ ')' :: rest)))))) := by
  simp [debug_binary]

end Append

/-- A debug form starts with the name of the node's form. -/
theorem exists_debug_append (e : Expr) (rest : List Char) :
    ∃ fields, e.debug.toList ++ rest = e.formName.toList ++ '(' :: fields := by
  cases e with
  | literal token => exact ⟨_, debug_literal_append token rest⟩
  | grouping inner paren => exact ⟨_, by simp [debug_grouping, formName]; rfl⟩
  | unary operator operand => exact ⟨_, debug_unary_append operator operand rest⟩
  | binary left operator right => exact ⟨_, debug_binary_append operator left right rest⟩

/-- Nodes whose debug forms start one text are of one form. -/
theorem formName_eq_of_debug_append {e e' : Expr} {rest rest' : List Char}
    (same : e.debug.toList ++ rest = e'.debug.toList ++ rest') : e.formName = e'.formName := by
  have free (e : Expr) : '(' ∉ e.formName.toList := by
    unfold formName
    split <;> decide
  obtain ⟨fields, first⟩ := e.exists_debug_append rest
  obtain ⟨fields', second⟩ := e'.exists_debug_append rest'
  rw [first, second] at same
  exact String.toList_inj.mp (Text.field_unique (free e) (free e') same).1

/-! ## Unique reading -/

/-- Two legible trees whose debug forms start one text are the same and end at the same
place. -/
theorem Legible.eq_of_debug_append {e e' : Expr} (h : e.Legible) (h' : e'.Legible)
    {rest rest' : List Char} (same : e.debug.toList ++ rest = e'.debug.toList ++ rest') :
    e = e' ∧ rest = rest' := by
  induction h generalizing e' rest rest' with
  | @literal token scanned _ =>
    cases h' with
    | literal scanned' _ =>
      rw [debug_literal_append, debug_literal_append] at same
      have fields := List.append_cancel_left (List.cons.inj (List.append_cancel_left same)).2
      obtain ⟨rfl, ends⟩ := scanned.eq_of_debug_append scanned' fields
      exact ⟨rfl, (List.cons.inj ends).2⟩
    | _ => exact absurd (formName_eq_of_debug_append same) (by simp [formName])
  | @grouping inner opener scanned _ _ ih =>
    cases h' with
    | grouping scanned' _ inside' =>
      rw [debug_grouping_append, debug_grouping_append] at same
      have fields := List.append_cancel_left (List.cons.inj (List.append_cancel_left same)).2
      obtain ⟨rfl, behind⟩ := ih inside' fields
      obtain ⟨rfl, ends⟩ := scanned.eq_of_debug_append scanned' (List.append_cancel_left behind)
      exact ⟨rfl, (List.cons.inj ends).2⟩
    | _ => exact absurd (formName_eq_of_debug_append same) (by simp [formName])
  | @unary operator operand scanned _ _ ih =>
    cases h' with
    | unary scanned' _ inside' =>
      rw [debug_unary_append, debug_unary_append] at same
      have fields := List.append_cancel_left (List.cons.inj (List.append_cancel_left same)).2
      obtain ⟨rfl, behind⟩ := scanned.eq_of_debug_append scanned' fields
      obtain ⟨rfl, ends⟩ := ih inside' (List.append_cancel_left behind)
      exact ⟨rfl, (List.cons.inj ends).2⟩
    | _ => exact absurd (formName_eq_of_debug_append same) (by simp [formName])
  | @binary left right operator scanned _ _ _ ihLeft ihRight =>
    cases h' with
    | binary scanned' _ left' right' =>
      rw [debug_binary_append, debug_binary_append] at same
      have fields := List.append_cancel_left (List.cons.inj (List.append_cancel_left same)).2
      obtain ⟨rfl, behind⟩ := ihLeft left' fields
      obtain ⟨rfl, last⟩ := scanned.eq_of_debug_append scanned' (List.append_cancel_left behind)
      obtain ⟨rfl, ends⟩ := ihRight right' (List.append_cancel_left last)
      exact ⟨rfl, (List.cons.inj ends).2⟩
    | _ => exact absurd (formName_eq_of_debug_append same) (by simp [formName])

variable {e e' : Expr}

/-- Legible trees have one debug form just when they are equal. -/
theorem Legible.debug_eq_iff (h : e.Legible) (h' : e'.Legible) : e.debug = e'.debug ↔ e = e' := by
  refine ⟨fun same => ?_, congrArg debug⟩
  have texts : e.debug.toList ++ [] = e'.debug.toList ++ [] := by rw [same]
  exact (h.eq_of_debug_append h' texts).1

theorem mapTokens_id (e : Expr) : e.mapTokens id = e := by
  induction e with
  | literal token => rfl
  | grouping inner paren ih => rw [mapTokens, ih, Option.map_id, id]
  | unary operator operand ih => rw [mapTokens, ih, id]
  | binary left operator right ihLeft ihRight => rw [mapTokens, ihLeft, ihRight, id]

/-- Equality of legible trees, token by token and field by field, is equality. -/
theorem Legible.same_iff (h : e.Legible) (h' : e'.Legible) : e.same e' = true ↔ e = e' := by
  have replaced := h.same_mapTokens_iff (f := id) Token.Scanned.same_iff h'
  rwa [mapTokens_id, mapTokens_id] at replaced

end LoxSyntax.Expr
