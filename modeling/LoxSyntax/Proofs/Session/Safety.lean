import LoxSyntax.Proofs.Grammar.Extent
import LoxSyntax.Session

/-!
# Sessions are safe under any requests

As long as no request sets the place of a cursor, every cursor of a session stands within
the tokens (`Session.Safe`), whatever the requests and their order. What one request may
change is confined (`Session.Confined`): the stream by a scan only, a cursor by requests on
that cursor only, nothing by a request that is out of range. A session only grows
(`Session.Extends`): tokens and warnings are added behind those there are, and cursors
never move back. Each of the three is shown of one request and then of all requests.
-/

namespace LoxSyntax

/-- The request does not set the place of the cursor. -/
def CursorRequest.keepsPlace : CursorRequest → Bool
  | .setPosition _ => false
  | _ => true

/-- The request does not set the place of any cursor. -/
def Request.keepsPlaces : Request → Bool
  | .onCursor _ r => r.keepsPlace
  | _ => true

/-- The request on a cursor is to read an expression or a nonterminal. -/
def CursorRequest.reads : CursorRequest → Bool
  | .parse => true
  | .read _ => true
  | _ => false

/-- The reply is that there is no such token. -/
def Response.IsOutOfRange (response : Response) : Prop :=
  ∃ error, response.reply = .error (.outOfRange error)

/-- The reply is a tree or a syntax error. -/
def Response.IsRead (response : Response) : Prop :=
  (∃ e, response.reply = .ok (.tree e)) ∨ ∃ error, response.reply = .error (.grammatical error)

/-! ## Looking up tokens -/

namespace TokenStream

theorem prefix_tokens_scan (s : TokenStream) : s.tokens.toList <+: s.scan.1.tokens.toList :=
  s.prefix_tokens_readAll s.pending

end TokenStream

namespace Cursor

variable {s : TokenStream} {c : Cursor}

theorem peek_of_end (h : c.position = s.count) :
    c.peek s = .error (.outOfRange ⟨c.position, s.count⟩) := by
  rw [peek, TokenStream.tokenAt_of_outside (.inr (by omega))]
  rfl

theorem exists_peek (h : c.Within s) (before : c.position ≠ s.count) : ∃ t, c.peek s = .ok t := by
  unfold Within at h
  obtain ⟨t, found⟩ : ∃ t, s.tokenAt c.position = .ok t :=
    TokenStream.exists_tokenAt_of_inside (by omega)
  refine ⟨t, ?_⟩
  rw [peek, found]
  rfl

theorem previous_of_start (h : c.position = 0) :
    c.previous s = .error (.outOfRange ⟨c.position - 1, s.count⟩) := by
  rw [previous, TokenStream.tokenAt_of_outside (.inl (by omega))]
  rfl

theorem exists_previous (h : c.Within s) (behind : c.position ≠ 0) :
    ∃ t, c.previous s = .ok t := by
  unfold Within at h
  obtain ⟨t, found⟩ : ∃ t, s.tokenAt (c.position - 1) = .ok t :=
    TokenStream.exists_tokenAt_of_inside (by omega)
  refine ⟨t, ?_⟩
  rw [previous, found]
  rfl

/-- Advancing gives the token at the cursor. -/
theorem snd_advance (c : Cursor) (s : TokenStream) : (c.advance s).2 = c.peek s := by
  unfold advance
  split <;> simp only [*]

/-- The cursor stands where it stood if there is no token, and otherwise behind it. -/
theorem advance_advances (h : c.Within s) : c.Advances s (c.advance s).1 := by
  unfold advance
  split
  · rename_i t found
    have inside : c.position ≠ s.count := by
      intro ends
      rw [peek_of_end ends] at found
      cases found
    unfold Within at h
    refine ⟨?_, ?_, List.prefix_refl _⟩ <;> dsimp only <;> omega
  · exact .refl h

theorem Advances.within_of {after : Cursor} (h : c.Advances s after) (start : c.Within s) :
    after.Within s :=
  ⟨Int.le_trans start.1 h.forward, h.within⟩

end Cursor

/-! ## Requests on one cursor -/

namespace CursorRequest

variable {s : TokenStream} {c : Cursor}

theorem isRead_of_result {result : Except Failure Expr} (h : Cursor.IsRead result)
    (log : List LogRecord) : Response.IsRead ⟨result.map .tree, log⟩ := by
  rcases h with ⟨e, rfl⟩ | ⟨error, rfl⟩
  · exact .inl ⟨e, rfl⟩
  · exact .inr ⟨error, rfl⟩

/-- A request to read is answered by a tree or a syntax error. -/
theorem isRead_of_reads (h : c.Within s) {request : CursorRequest} (reads : request.reads = true) :
    (request.run s c).2.IsRead := by
  cases request with
  | parse => exact isRead_of_result (Cursor.parse_advances h).2 _
  | read n => exact isRead_of_result (Cursor.readWithin_advances h c.levels n).2 _
  | _ => cases reads

theorem not_isOutOfRange_of_isRead {response : Response} (h : response.IsRead) :
    ¬ response.IsOutOfRange := by
  intro outside
  obtain ⟨error, outside⟩ := outside
  rcases h with ⟨e, read⟩ | ⟨error', read⟩
  · cases read.symm.trans outside
  · cases read.symm.trans outside

/-- The look-up of a token that is there except at one place is out of range just there. -/
theorem isOutOfRange_iff {result : Except Failure Token} {missing : Prop}
    (fails : missing → ∃ error, result = .error (.outOfRange error))
    (finds : ¬ missing → ∃ t, result = .ok t) (log : List LogRecord) :
    Response.IsOutOfRange ⟨result.map .token, log⟩ ↔ missing := by
  constructor
  · intro outside
    obtain ⟨error, outside⟩ := outside
    refine Classical.byContradiction fun there => ?_
    obtain ⟨t, rfl⟩ := finds there
    cases outside
  · intro away
    obtain ⟨error, rfl⟩ := fails away
    exact ⟨error, rfl⟩

theorem isOutOfRange_peek_iff (h : c.Within s) :
    (peek.run s c).2.IsOutOfRange ↔ c.position = s.count :=
  isOutOfRange_iff (fun ends => ⟨_, Cursor.peek_of_end ends⟩) (Cursor.exists_peek h) []

theorem isOutOfRange_advance_iff (h : c.Within s) :
    (advance.run s c).2.IsOutOfRange ↔ c.position = s.count := by
  show Response.IsOutOfRange ⟨(c.advance s).2.map .token, []⟩ ↔ _
  rw [Cursor.snd_advance]
  exact isOutOfRange_peek_iff h

theorem isOutOfRange_previous_iff (h : c.Within s) :
    (previous.run s c).2.IsOutOfRange ↔ c.position = 0 :=
  isOutOfRange_iff (fun starts => ⟨_, Cursor.previous_of_start starts⟩) (Cursor.exists_previous h)
    []

/-- A request that does not set the place of a cursor within the tokens moves it forward
within them. -/
theorem run_advances (h : c.Within s) {request : CursorRequest}
    (keeps : request.keepsPlace = true) :
    c.Advances s (request.run s c).1 := by
  cases request with
  | parse => exact (Cursor.parse_advances h).1
  | read n => exact (Cursor.readWithin_advances h c.levels n).1
  | advance => exact Cursor.advance_advances h
  | setPosition position => cases keeps
  | setLimit limit => exact ⟨Int.le_refl _, h.2, List.prefix_refl _⟩
  | peek => exact .refl h
  | previous => exact .refl h
  | atEnd => exact .refl h
  | warnings => exact .refl h

/-- A request that is out of range leaves the cursor as it is. -/
theorem run_of_isOutOfRange (h : c.Within s) {request : CursorRequest}
    (outside : (request.run s c).2.IsOutOfRange) : (request.run s c).1 = c := by
  cases request with
  | parse => exact absurd outside (not_isOutOfRange_of_isRead (isRead_of_reads h rfl))
  | read n => exact absurd outside (not_isOutOfRange_of_isRead (isRead_of_reads h rfl))
  | advance =>
    have ends := (isOutOfRange_advance_iff h).mp outside
    show (c.advance s).1 = c
    rw [Cursor.advance, Cursor.peek_of_end ends]
  | setPosition position =>
    obtain ⟨error, outside⟩ := outside
    cases outside
  | setLimit limit =>
    obtain ⟨error, outside⟩ := outside
    cases outside
  | peek => rfl
  | previous => rfl
  | atEnd => rfl
  | warnings => rfl

end CursorRequest

/-! ## Requests on a session -/

namespace Session

/-- Every cursor stands within the tokens. -/
def Safe (s : Session) : Prop :=
  ∀ c ∈ s.cursors, c.Within s.stream

/-- A session and one it has grown into: tokens, cursors and warnings have been added behind
those there are, and no cursor has moved back. -/
structure Extends (s later : Session) : Prop where
  tokens : s.stream.tokens.toList <+: later.stream.tokens.toList
  cursors : ∀ (i : Nat) (c : Cursor), s.cursors[i]? = some c →
    ∃ after, later.cursors[i]? = some after ∧
      c.position ≤ after.position ∧ c.warnings.toList <+: after.warnings.toList

/-- What a request may change, and when it fails. -/
structure Confined (s : Session) (request : Request) (later : Session) (response : Response) :
    Prop where
  /-- Only a scan changes the stream. -/
  stream : request ≠ .scan → later.stream = s.stream
  /-- Only requests on a cursor change that cursor. -/
  cursors : ∀ (i : Nat) (c : Cursor), s.cursors[i]? = some c → (∀ r, request ≠ .onCursor i r) →
    later.cursors[i]? = some c
  /-- A request to read gives a tree or a syntax error. -/
  reads : ∀ (i : Nat) (c : Cursor) (r : CursorRequest), s.cursors[i]? = some c →
    r.reads = true → request = .onCursor i r → response.IsRead
  /-- There is no token at a cursor just when it stands behind the last one. -/
  ahead : ∀ (i : Nat) (c : Cursor), s.cursors[i]? = some c →
    request = .onCursor i .advance ∨ request = .onCursor i .peek →
    (response.IsOutOfRange ↔ c.position = s.stream.count)
  /-- There is no token before a cursor just when it stands at the first one. -/
  behind : ∀ (i : Nat) (c : Cursor), s.cursors[i]? = some c → request = .onCursor i .previous →
    (response.IsOutOfRange ↔ c.position = 0)
  /-- A request that is out of range changes nothing. -/
  failed : response.IsOutOfRange → later = s

namespace Extends

theorem refl (s : Session) : s.Extends s :=
  ⟨List.prefix_refl _, fun _ c found => ⟨c, found, Int.le_refl _, List.prefix_refl _⟩⟩

theorem trans {s later latest : Session} (h : s.Extends later) (h' : later.Extends latest) :
    s.Extends latest := by
  refine ⟨h.tokens.trans h'.tokens, fun i c found => ?_⟩
  obtain ⟨c', found', forward, warned⟩ := h.cursors i c found
  obtain ⟨c'', found'', forward', warned'⟩ := h'.cursors i c' found'
  exact ⟨c'', found'', Int.le_trans forward forward', warned.trans warned'⟩

end Extends

theorem safe_ofSource (source : String) : (ofSource source).Safe := by
  intro c member
  obtain rfl := List.mem_singleton.mp member
  exact ⟨Int.le_refl 0, Int.natCast_nonneg _⟩

/-! ### Requests on the cursors of a session -/

variable {s : Session} {i : Nat} {c : Cursor} {r : CursorRequest}

theorem run_onCursor (h : s.cursors[i]? = some c) :
    s.run (.onCursor i r) =
      ({ s with cursors := s.cursors.set i (r.run s.stream c).1 }, (r.run s.stream c).2) := by
  simp only [run, h]

theorem run_onCursor_of_none (h : s.cursors[i]? = none) :
    s.run (.onCursor i r) = (s, { reply := .error (.outOfRange ⟨i, s.cursors.length⟩) }) := by
  simp only [run, h]

theorem Safe.of_getElem? (safe : s.Safe) (h : s.cursors[i]? = some c) : c.Within s.stream :=
  safe c (List.mem_of_getElem? h)

/-- The cursor of a request is replaced, the others stay. -/
theorem getElem?_set_cursor (h : s.cursors[i]? = some c) (after : Cursor) (j : Nat) :
    (s.cursors.set i after)[j]? = if i = j then some after else s.cursors[j]? := by
  have inside : i < s.cursors.length := (List.getElem?_eq_some_iff.mp h).1
  rw [List.getElem?_set]
  simp only [inside, if_true]

/-! ### One request -/

/-- A request that does not set the place of a cursor keeps a safe session safe. -/
theorem run_safe (safe : s.Safe) {request : Request} (keeps : request.keepsPlaces = true) :
    (s.run request).1.Safe := by
  cases request with
  | scan => exact fun c member => (safe c member).grow s.stream.prefix_tokens_scan
  | newCursor =>
    intro c member
    rcases List.mem_append.mp member with old | new
    · exact safe c old
    · obtain rfl := List.mem_singleton.mp new
      exact ⟨Int.le_refl 0, Int.natCast_nonneg _⟩
  | onCursor i r =>
    cases found : s.cursors[i]? with
    | none =>
      rw [run_onCursor_of_none found]
      exact safe
    | some c =>
      rw [run_onCursor found]
      have within := safe.of_getElem? found
      have advances := CursorRequest.run_advances within keeps
      intro c' member
      rcases List.mem_or_eq_of_mem_set member with old | rfl
      · exact safe c' old
      · exact advances.within_of within
  | tokenAt index => exact safe
  | count => exact safe
  | tokens => exact safe
  | error => exact safe
  | listing => exact safe

/-- A request that does not set the place of a cursor lets a safe session grow. -/
theorem run_extends (safe : s.Safe) {request : Request} (keeps : request.keepsPlaces = true) :
    s.Extends (s.run request).1 := by
  cases request with
  | scan =>
    exact ⟨s.stream.prefix_tokens_scan,
      fun i c found => ⟨c, found, Int.le_refl _, List.prefix_refl _⟩⟩
  | newCursor =>
    refine ⟨List.prefix_refl _, fun i c found => ⟨c, ?_, Int.le_refl _, List.prefix_refl _⟩⟩
    have inside := (List.getElem?_eq_some_iff.mp found).1
    exact (List.getElem?_append_left inside).trans found
  | onCursor i r =>
    cases found : s.cursors[i]? with
    | none =>
      rw [run_onCursor_of_none found]
      exact .refl s
    | some c =>
      rw [run_onCursor found]
      have advances := CursorRequest.run_advances (safe.of_getElem? found) keeps
      refine ⟨List.prefix_refl _, fun j c' found' => ?_⟩
      dsimp only
      rw [getElem?_set_cursor found]
      split
      · rename_i same
        subst same
        cases found.symm.trans found'
        exact ⟨_, rfl, advances.forward, advances.warned⟩
      · exact ⟨c', found', Int.le_refl _, List.prefix_refl _⟩
  | tokenAt index => exact .refl s
  | count => exact .refl s
  | tokens => exact .refl s
  | error => exact .refl s
  | listing => exact .refl s

/-- A request that is not made of a cursor and keeps the cursors there are is confined. -/
theorem Confined.of_no_cursor {request : Request} {later : Session} {response : Response}
    (none : ∀ i r, request ≠ .onCursor i r) (stream : request ≠ .scan → later.stream = s.stream)
    (cursors : ∀ (i : Nat) (c : Cursor), s.cursors[i]? = some c → later.cursors[i]? = some c)
    (failed : response.IsOutOfRange → later = s) : s.Confined request later response where
  stream := stream
  cursors i c found _ := cursors i c found
  reads i _ r _ _ same := absurd same (none i r)
  ahead i _ _ same := by
    rcases same with same | same
    · exact absurd same (none i _)
    · exact absurd same (none i _)
  behind i _ _ same := absurd same (none i _)
  failed := failed

/-- A request on a cursor within the tokens is confined to that cursor. -/
theorem confined_onCursor (within : c.Within s.stream) (found : s.cursors[i]? = some c) :
    s.Confined (.onCursor i r) (s.run (.onCursor i r)).1 (s.run (.onCursor i r)).2 := by
  rw [run_onCursor found]
  refine ⟨fun _ => rfl, ?_, ?_, ?_, ?_, ?_⟩
  · intro j c' found' other
    dsimp only
    rw [getElem?_set_cursor found]
    split
    · rename_i same
      subst same
      exact absurd rfl (other r)
    · exact found'
  · intro j c' r' found' reads same
    cases same
    exact CursorRequest.isRead_of_reads within reads
  · intro j c' found' same
    rcases same with same | same
    · cases same
      cases found.symm.trans found'
      exact CursorRequest.isOutOfRange_advance_iff within
    · cases same
      cases found.symm.trans found'
      exact CursorRequest.isOutOfRange_peek_iff within
  · intro j c' found' same
    cases same
    cases found.symm.trans found'
    exact CursorRequest.isOutOfRange_previous_iff within
  · intro outside
    rw [CursorRequest.run_of_isOutOfRange within outside]
    have same : s.cursors.set i c = s.cursors := by
      refine List.ext_getElem? fun j => ?_
      rw [getElem?_set_cursor found]
      split
      · rename_i same
        subst same
        exact found.symm
      · rfl
    rw [same]

/-- Every request on a safe session is confined. -/
theorem run_confined (safe : s.Safe) (request : Request) :
    s.Confined request (s.run request).1 (s.run request).2 := by
  cases request with
  | scan =>
    refine .of_no_cursor nofun (fun other => absurd rfl other) (fun _ _ found => found) ?_
    intro outside
    obtain ⟨error, outside⟩ := outside
    dsimp only [run] at outside
    cases result : s.stream.scan.2 with
    | ok done =>
      rw [result] at outside
      cases outside
    | error e =>
      rw [result] at outside
      cases outside
  | newCursor =>
    refine .of_no_cursor nofun (fun _ => rfl) (fun i c found => ?_) ?_
    · have inside := (List.getElem?_eq_some_iff.mp found).1
      exact (List.getElem?_append_left inside).trans found
    · intro outside
      obtain ⟨error, outside⟩ := outside
      cases outside
  | onCursor i r =>
    cases found : s.cursors[i]? with
    | some c => exact confined_onCursor (safe.of_getElem? found) found
    | none =>
      rw [run_onCursor_of_none found]
      refine ⟨fun _ => rfl, fun _ _ found _ => found, ?_, ?_, ?_, fun _ => rfl⟩
      · intro j c' r' found' _ same
        cases same
        cases found.symm.trans found'
      · intro j c' found' same
        rcases same with same | same
        · cases same
          cases found.symm.trans found'
        · cases same
          cases found.symm.trans found'
      · intro j c' found' same
        cases same
        cases found.symm.trans found'
  | tokenAt index => exact .of_no_cursor nofun (fun _ => rfl) (fun _ _ found => found) fun _ => rfl
  | count => exact .of_no_cursor nofun (fun _ => rfl) (fun _ _ found => found) fun _ => rfl
  | tokens => exact .of_no_cursor nofun (fun _ => rfl) (fun _ _ found => found) fun _ => rfl
  | error => exact .of_no_cursor nofun (fun _ => rfl) (fun _ _ found => found) fun _ => rfl
  | listing => exact .of_no_cursor nofun (fun _ => rfl) (fun _ _ found => found) fun _ => rfl

/-! ### All requests -/

/-- The session after requests. -/
def after (s : Session) (requests : List Request) : Session :=
  ((s.runAll requests).getLast?.map Prod.snd).getD s

theorem after_cons (s : Session) (request : Request) (rest : List Request) :
    s.after (request :: rest) = (s.run request).1.after rest := by
  unfold after
  rw [runAll, List.getLast?_cons]
  cases ((s.run request).1.runAll rest).getLast? with
  | none => rfl
  | some last => rfl

/-- Requests that set no place keep a safe session safe and let it grow. -/
theorem after_safe_extends (safe : s.Safe) {requests : List Request}
    (keeps : ∀ r ∈ requests, r.keepsPlaces = true) :
    (s.after requests).Safe ∧ s.Extends (s.after requests) := by
  induction requests generalizing s with
  | nil => exact ⟨safe, .refl s⟩
  | cons request rest ih =>
    obtain ⟨first, later⟩ := List.forall_mem_cons.mp keeps
    obtain ⟨safe', grown⟩ := ih (run_safe safe first) later
    rw [after_cons]
    exact ⟨safe', (run_extends safe first).trans grown⟩

/-- After any requests on a source that set no place, every cursor stands within the
tokens, any further request is confined, and any further requests let the session grow. -/
theorem safe_of_requests (source : String) (past future : List Request)
    (keeps : ∀ r ∈ past ++ future, r.keepsPlaces = true) :
    let s := (ofSource source).after past
    s.Safe ∧ s.Extends (s.after future) ∧
      ∀ request, s.Confined request (s.run request).1 (s.run request).2 := by
  obtain ⟨before, behind⟩ := List.forall_mem_append.mp keeps
  have safe := (after_safe_extends (safe_ofSource source) before).1
  exact ⟨safe, (after_safe_extends safe behind).2, run_confined safe⟩

/-- A cursor is used before the first scan, which fails, and another one is made before the
second; reading on with both, the first one ends behind the tokens. -/
theorem safe_of_requests_interleaved :
    let past : List Request := [.onCursor 0 .parse, .scan, .newCursor, .onCursor 1 .parse, .scan,
      .onCursor 0 (.read .unary), .onCursor 0 .advance]
    let future : List Request := [.onCursor 0 .peek, .onCursor 1 (.setLimit 0), .onCursor 1 .parse]
    let s := (ofSource "!nil # )").after past
    (∀ r ∈ past ++ future, r.keepsPlaces = true) ∧
      s.stream.count = 3 ∧ s.cursors.map Cursor.position = [3, 2] ∧
      (s.run (.onCursor 0 .peek)).2.IsOutOfRange ∧
      s.Safe ∧ s.Extends (s.after future) ∧
      ∀ request, s.Confined request (s.run request).1 (s.run request).2 := by
  refine ⟨by decide, by rfl, by rfl, ⟨⟨3, 3⟩, by rfl⟩, ?_⟩
  exact safe_of_requests _ _ _ (by decide)

end Session

end LoxSyntax
