import LoxSyntax.Cursor

/-!
# Sessions

A session is one token stream and any number of cursors on it, driven by
requests in any order. Each request changes the stream or one cursor, gives a
reply or a failure, and leaves log records. After a failure the session goes on
from the state the failure left.
-/

namespace LoxSyntax

/-- A token stream and the cursors on it. -/
structure Session where
  stream : TokenStream
  cursors : List Cursor := [{}]
deriving DecidableEq, Repr

/-- What can be asked of a cursor. -/
inductive CursorRequest
  | parse
  | read (n : Nonterminal)
  | advance
  | peek
  | previous
  | atEnd
  | warnings
  | setPosition (position : Int)
  | setLimit (limit : Int)
deriving DecidableEq, Repr

/-- What can be asked of a session. Cursors are numbered from zero in the order
of their making. -/
inductive Request
  | scan
  | tokenAt (index : Int)
  | count
  | tokens
  | error
  | listing
  | newCursor
  | onCursor (index : Nat) (request : CursorRequest)
deriving DecidableEq, Repr

/-- What a request gives when it does not fail. -/
inductive Reply
  | done
  | token (t : Token)
  | count (n : Nat)
  | tokens (ts : List Token)
  | error (e : Option LexicalError)
  | listing (lines : List String)
  | cursor (index : Nat)
  | tree (e : Expr)
  | answer (b : Bool)
  | warnings (ws : List TrailingTokens)
deriving DecidableEq, Repr

/-- The outcome of a request: a reply or a failure, and the records it leaves. -/
structure Response where
  reply : Except Failure Reply
  log : List LogRecord := []

namespace CursorRequest

/-- Carries a request out on a cursor. -/
def run (s : TokenStream) (c : Cursor) : CursorRequest → Cursor × Response
  | parse =>
    let (after, result) := c.parse s
    (after, ⟨result.map .tree, Cursor.parseLog c after⟩)
  | read n =>
    let (after, result) := c.read s n
    (after, { reply := result.map .tree })
  | advance =>
    let (after, result) := c.advance s
    (after, { reply := result.map .token })
  | peek => (c, { reply := (c.peek s).map .token })
  | previous => (c, { reply := (c.previous s).map .token })
  | atEnd => (c, { reply := .ok (.answer (c.atEnd s)) })
  | warnings => (c, { reply := .ok (.warnings c.warnings.toList) })
  | setPosition position => ({ c with position }, { reply := .ok .done })
  | setLimit limit => ({ c with limit }, { reply := .ok .done })

end CursorRequest

namespace Session

/-- A session on a source of which nothing has been read, with one cursor. -/
def ofSource (source : String) : Session where
  stream := TokenStream.ofSource source

/-- Carries a request out. A request on a cursor that was never made fails like
one for a token that is not there. -/
def run (s : Session) : Request → Session × Response
  | .scan =>
    let outcome := s.stream.scan
    ({ s with stream := outcome.1 },
      ⟨(outcome.2.mapError Failure.lexical).map fun _ => .done,
        TokenStream.scanLog s.stream outcome⟩)
  | .tokenAt index =>
    (s, { reply := ((s.stream.tokenAt index).mapError Failure.outOfRange).map .token })
  | .count => (s, { reply := .ok (.count s.stream.count) })
  | .tokens => (s, { reply := .ok (.tokens s.stream.tokens.toList) })
  | .error => (s, { reply := .ok (.error s.stream.error) })
  | .listing => (s, { reply := .ok (.listing s.stream.listing) })
  | .newCursor =>
    ({ s with cursors := s.cursors ++ [{}] }, { reply := .ok (.cursor s.cursors.length) })
  | .onCursor index request =>
    match s.cursors[index]? with
    | none => (s, { reply := .error (.outOfRange ⟨index, s.cursors.length⟩) })
    | some c =>
      let (after, response) := request.run s.stream c
      ({ s with cursors := s.cursors.set index after }, response)

/-- Carries requests out in order; the responses come with the session after
each of them. -/
def runAll (s : Session) : List Request → List (Response × Session)
  | [] => []
  | request :: rest =>
    let (after, response) := s.run request
    (response, after) :: after.runAll rest

end Session

end LoxSyntax
