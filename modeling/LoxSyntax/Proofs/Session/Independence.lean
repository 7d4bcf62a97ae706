import LoxSyntax.Proofs.Grammar.Descent
import LoxSyntax.Proofs.Session.Safety

/-!
# Nothing is left behind between requests

A reader answers the requests of a cursor by recursive descent, with a count of the levels open
around it that only a parse sets back to zero. As long as the count is zero a reader gives the
answers of a cursor, which keeps no count, and its count is zero again afterwards (`Reader.run_eq`).
So it is zero behind every request of any history, however the requests ended, and of the
history nothing tells in a later reading but the place, the limit and the warnings before
(`Reader.after_independent`).
-/

namespace LoxSyntax

namespace Reader

/-- Carries a request out on a reader. The stack has room for one call more than there are
tokens, which no reading exhausts. -/
def run (s : TokenStream) (c : Reader) : CursorRequest → Reader × Response
  | .parse =>
    match (Reading.parse s (s.count + 1)).run c with
    | .ok e after => (after, ⟨.ok (.tree e), Cursor.parseLog c.toCursor after.toCursor⟩)
    | .error failure after => (after, ⟨.error failure, Cursor.parseLog c.toCursor after.toCursor⟩)
  | .read n =>
    match (Reading.nonterminal s (s.count + 1) n).run c with
    | .ok e after => (after, { reply := .ok (.tree e) })
    | .error failure after => (after, { reply := .error failure })
  | request =>
    let (after, response) := request.run s c.toCursor
    ({ c with toCursor := after }, response)

/-- A new reader behind a history of requests, each with the stream it was made on. -/
def after (history : List (TokenStream × CursorRequest)) : Reader :=
  history.foldl (fun c made => (c.run made.1 made.2).1) {}

/-! ## Readers and cursors -/

/-- The end of a cursor's reading as that of a reader whose count is zero. -/
def ended : Cursor × Except Failure Expr → EStateM.Result Failure Reader Expr
  | (after, .ok e) => .ok e ⟨after, 0⟩
  | (after, .error failure) => .error failure ⟨after, 0⟩

variable {s : TokenStream} {frames : Nat}

/-- From a count of zero a reader reads what a cursor reads, on a stack with room for more calls
than there are tokens or than the limit allows levels. -/
theorem run_nonterminal_eq (c : Cursor) (enough : s.count < frames ∨ c.levels < frames)
    (n : Nonterminal) : (Reading.nonterminal s frames n).run ⟨c, 0⟩ = ended (c.read s n) := by
  have room : Reading.Suffices frames c.limit 0 s.count := by
    rwa [Reading.Suffices, Int.sub_zero]
  obtain ⟨inside, outside⟩ := Reading.run_nonterminal ⟨c, 0⟩ room n
  by_cases h : c.Within s
  · rw [inside h, Cursor.read, Cursor.readWithin_of_inside _ _ h, Int.sub_zero]
    unfold Cursor.levels
    dsimp only
    cases n.rule (c.surroundings s) c.limit.toNat (c.ahead s) <;> rfl
  · rw [outside h, Cursor.read,
      Cursor.readWithin_of_outside _ _ (by unfold Cursor.Within at h; omega)]
    rfl

/-- A reader warns of the tokens left over as a cursor does. -/
theorem run_warn {c : Cursor} (h : c.Within s) (e : Expr) :
    (do
      if ← Reading.atEnd s then
        return e
      let t ← Reading.peek s
      modify fun c => { c with warnings := c.warnings.push ⟨t⟩ }
      return e : Reading Expr).run ⟨c, 0⟩ = ended (c.warnOfRest s, .ok e) := by
  unfold Cursor.warnOfRest
  by_cases stop : c.position = s.count
  · have last : c.atEnd s = true := by
      rw [Cursor.atEnd, beq_iff_eq]
      exact stop
    simp [last, Cursor.peek_of_end stop, ended]
  · have more : c.atEnd s = false := by
      rw [Cursor.atEnd, beq_eq_false_iff_ne]
      exact stop
    obtain ⟨t, found⟩ := Cursor.exists_peek h stop
    simp [more, found, Reading.peek, ofExcept, ended]

/-- Whatever its count, a reader parses what a cursor parses, on a stack with room for more calls
than there are tokens or than the limit allows levels. -/
theorem run_parse_eq (c : Reader) (enough : s.count < frames ∨ c.levels < frames) :
    (Reading.parse s frames).run c = ended (c.toCursor.parse s) := by
  unfold Reading.parse Cursor.parse Cursor.parseWithin
  rw [EStateM.run_bind, EStateM.run_modify]
  dsimp only
  rw [EStateM.run_bind, run_nonterminal_eq c.toCursor enough, Cursor.read]
  cases read : c.toCursor.readWithin s c.toCursor.levels .expression with
  | mk reached result =>
    cases result with
    | error failure => rfl
    | ok e =>
      obtain ⟨starts, inside, -⟩ := Cursor.readWithin_eq_ok read
      have advances := (Cursor.readWithin_advances ⟨starts, inside⟩ c.levels .expression).1
      rw [read] at advances
      exact run_warn ⟨Int.le_trans starts advances.forward, advances.within⟩ e

/-- From a count of zero a reader answers every request as a cursor does, and its count is zero
again. -/
theorem run_eq (s : TokenStream) (c : Cursor) (request : CursorRequest) :
    run s ⟨c, 0⟩ request = (⟨(request.run s c).1, 0⟩, (request.run s c).2) := by
  have enough : s.count < s.count + 1 ∨ c.levels < s.count + 1 := .inl (Nat.lt_succ_self _)
  cases request with
  | parse =>
    dsimp only [run, CursorRequest.run]
    rw [run_parse_eq ⟨c, 0⟩ enough]
    cases c.parse s with
    | mk reached result => cases result <;> rfl
  | read n =>
    dsimp only [run, CursorRequest.run]
    rw [run_nonterminal_eq c enough]
    cases c.read s n with
    | mk reached result => cases result <;> rfl
  | advance => rfl
  | peek => rfl
  | previous => rfl
  | atEnd => rfl
  | warnings => rfl
  | setPosition position => rfl
  | setLimit limit => rfl

/-- Behind any history the count is zero. -/
theorem depth_after (history : List (TokenStream × CursorRequest)) : (after history).depth = 0 := by
  have kept (c : Cursor) :
      (history.foldl (fun c made => (run made.1 c made.2).1) (⟨c, 0⟩ : Reader)).depth = 0 := by
    induction history generalizing c with
    | nil => rfl
    | cons made history ih =>
      rw [List.foldl_cons, run_eq]
      exact ih _
  exact kept {}

end Reader

/-! ## Cursors at one place with one limit -/

namespace Cursor

variable {c c' : Cursor}

/-- Cursors at one place and with one limit read the same and move to one place. -/
theorem read_of_same (s : TokenStream) (n : Nonterminal) (place : c.position = c'.position)
    (limits : c.limit = c'.limit) :
    ∃ stop result, c.read s n = ({ c with position := stop }, result) ∧
      c'.read s n = ({ c' with position := stop }, result) := by
  have surroundings : c'.surroundings s = c.surroundings s := by
    rw [Cursor.surroundings, Cursor.surroundings, limits]
  have ahead : c'.ahead s = c.ahead s := by
    rw [Cursor.ahead, Cursor.ahead, place]
  have levels : c'.levels = c.levels := by
    rw [Cursor.levels, Cursor.levels, limits]
  unfold read
  by_cases outside : c.position < 0 ∨ s.count < c.position
  · rw [readWithin_of_outside _ _ outside, readWithin_of_outside _ _ (place ▸ outside), ← place]
    exact ⟨c.position, _, rfl, by rw [place]⟩
  · rw [readWithin_of_inside _ _ (by omega), readWithin_of_inside _ _ (by omega), surroundings,
      ahead, levels, ← place]
    cases n.rule (c.surroundings s) c.levels (c.ahead s) with
    | parsed e used => exact ⟨_, _, rfl, rfl⟩
    | failed error used => exact ⟨_, _, rfl, rfl⟩

/-- What is warned of depends on the place only. -/
theorem warnOfRest_at (c : Cursor) (s : TokenStream) (stop : Int) :
    ({ c with position := stop } : Cursor).warnOfRest s =
      { c with
        position := stop
        warnings := c.warnings ++ ((s.tokenAt stop).toOption.map TrailingTokens.mk).toArray } := by
  unfold warnOfRest peek
  dsimp only
  cases s.tokenAt stop with
  | ok t =>
    show ({ c with position := stop, warnings := c.warnings.push ⟨t⟩ } : Cursor) = _
    simp [Except.toOption]
  | error error =>
    show ({ c with position := stop } : Cursor) = _
    simp [Except.toOption]

/-- Cursors at one place and with one limit parse the same, move to one place and warn of the
same. -/
theorem parse_of_same (s : TokenStream) (place : c.position = c'.position)
    (limits : c.limit = c'.limit) :
    ∃ stop result added,
      c.parse s = ({ c with position := stop, warnings := c.warnings ++ added }, result) ∧
      c'.parse s = ({ c' with position := stop, warnings := c'.warnings ++ added }, result) := by
  obtain ⟨stop, result, reached, reached'⟩ := read_of_same s .expression place limits
  unfold read at reached reached'
  unfold parse parseWithin
  rw [reached, reached']
  cases result with
  | error failure => exact ⟨stop, .error failure, #[], by simp, by simp⟩
  | ok e => exact ⟨stop, .ok e, _, by rw [← warnOfRest_at], by rw [← warnOfRest_at]⟩

end Cursor

/-- A reading gives cursors at one place and with one limit the same response, takes them to
one place and adds the same warnings to theirs. -/
theorem CursorRequest.run_of_same {c c' : Cursor} (s : TokenStream) {request : CursorRequest}
    (reads : request.reads = true) (place : c.position = c'.position)
    (limits : c.limit = c'.limit) :
    (request.run s c).2 = (request.run s c').2 ∧
      (request.run s c).1.position = (request.run s c').1.position ∧
      ∃ added, (request.run s c).1.warnings = c.warnings ++ added ∧
        (request.run s c').1.warnings = c'.warnings ++ added := by
  cases request with
  | read n =>
    obtain ⟨stop, result, reached, reached'⟩ := Cursor.read_of_same s n place limits
    dsimp only [run]
    rw [reached, reached']
    exact ⟨rfl, rfl, #[], by simp, by simp⟩
  | parse =>
    obtain ⟨stop, result, added, reached, reached'⟩ := Cursor.parse_of_same s place limits
    dsimp only [run]
    rw [reached, reached']
    exact ⟨by simp [Cursor.parseLog], rfl, added, rfl, rfl⟩
  | _ => cases reads

namespace Reader

/-- A reader keeps nothing from its history but its place, its limit and its warnings. Behind
any requests, however they ended, its count is zero; it answers the next request as a cursor
does; and where two readers stand at one place under one limit, the same reading gives both of
them the same tree or error, takes them to one place and adds the same warnings. -/
theorem after_independent (history history' : List (TokenStream × CursorRequest)) :
    let c := after history
    let c' := after history'
    c.depth = 0 ∧
      (∀ s request,
        c.run s request = (⟨(request.run s c.toCursor).1, 0⟩, (request.run s c.toCursor).2)) ∧
      ∀ s request, request.reads = true → c.position = c'.position → c.limit = c'.limit →
        (c.run s request).2 = (c'.run s request).2 ∧
          (c.run s request).1.position = (c'.run s request).1.position ∧
          ∃ added, (c.run s request).1.warnings = c.warnings ++ added ∧
            (c'.run s request).1.warnings = c'.warnings ++ added := by
  intro c c'
  have answers (c : Reader) (zero : c.depth = 0) (s : TokenStream) (request : CursorRequest) :
      c.run s request = (⟨(request.run s c.toCursor).1, 0⟩, (request.run s c.toCursor).2) := by
    rw [← run_eq, ← zero]
  have zero : c.depth = 0 := depth_after history
  refine ⟨zero, answers c zero, fun s request reads place limits => ?_⟩
  rw [answers c zero, answers c' (depth_after history')]
  exact CursorRequest.run_of_same s reads place limits

/-- A parse that the limit cuts off, a reading that an unclosed group ends and one outside the
tokens leave behind what a new reader has, but for the place, which is set back. -/
theorem after_independent_failures :
    let opener : Token := ⟨.leftParen, "(", .absent, 1⟩
    let minus : Token := ⟨.minus, "-", .absent, 1⟩
    let operand : Token := ⟨.keyword .nilWord, "nil", .absent, 1⟩
    let s : TokenStream := ⟨[], 0, 1, #[minus, opener, minus, operand], none⟩
    let history := [(s, .setLimit 2), (s, .parse), (s, .setPosition 1), (s, .read .primary),
      (s, .setPosition 5), (s, .read .term), (s, .setPosition 0)]
    let history' := [(s, .setLimit 2)]
    CursorRequest.parse.reads = true ∧ (after history).position = (after history').position ∧
      (after history).limit = (after history').limit ∧
      ((after history).run s .parse).2 = ((after history').run s .parse).2 ∧
      ((after history).run s .parse).1.position = ((after history').run s .parse).1.position ∧
      ∃ added, ((after history).run s .parse).1.warnings = (after history).warnings ++ added ∧
        ((after history').run s .parse).1.warnings = (after history').warnings ++ added := by
  intro opener minus operand s history history'
  have place : (after history).position = (after history').position := by rfl
  have limits : (after history).limit = (after history').limit := by rfl
  have same := (after_independent history history').2.2 s .parse rfl place limits
  exact ⟨rfl, place, limits, same⟩

end Reader

end LoxSyntax
