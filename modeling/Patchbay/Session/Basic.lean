import Patchbay.Session.Message
import Patchbay.Graph.Basic

/-!
# Editor sessions

A session answers every request with exactly one response. A change is answered with the whole
graph, so that an editor never has to patch its own copy.
-/

namespace Patchbay.Session

/-- The answer that shows the graph. -/
def fullGraph (g : Graph) : EditorResponse :=
  .fullGraph g.toSnapshot g.notes g.canUndo g.canRedo

/-- The answer that lists what graphs are built from. -/
def nodeLibrary (g : Graph) : EditorResponse :=
  .nodeLibrary g.library.entries g.library.subgraphIds

/-- The answer to a refused request. -/
def refusal (e : Error) : EditorResponse := .error e.message e.isRejection

/-- The answer to an operation shows the graph it leaves behind, or says why it was refused. -/
def answer : Except Error (Option GraphSnapshot) × Graph → Graph × EditorResponse
  | (.ok _, g) => (g, fullGraph g)
  | (.error e, g) => (g, refusal e)

/-- Answers one request. -/
def handle (g : Graph) : EditorRequest → Graph × EditorResponse
  | .getNodeLibrary => (g, nodeLibrary g)
  | .loadFromSnapshot graph => answer (g.perform (.load graph))
  | .edit edit => answer (g.perform (.edit edit))
  | .undo => answer (g.perform .undo)
  | .redo => answer (g.perform .redo)

/-- Answers requests one after the other. -/
def handleAll (g : Graph) : List EditorRequest → Graph × List EditorResponse
  | [] => (g, [])
  | r :: rs =>
    let (g, response) := handle g r
    let (g, responses) := handleAll g rs
    (g, response :: responses)

/-- Serves requests from a channel. Once nobody takes the answers, the service ends with the first
of them. -/
def serve (g : Graph) (requests : List EditorRequest) (isConnected : Bool) :
    Graph × List EditorResponse :=
  if isConnected then handleAll g requests else ((handleAll g (requests.take 1)).1, [])

/-! ### Lines -/

/-- Blanks in the sense of the Unicode property `White_Space`. -/
def isBlank (c : Char) : Bool :=
  c == ' ' || ('\t' ≤ c && c ≤ '\r') || c == '\u0085' || c == '\u00a0' || c == '\u1680'
    || ('\u2000' ≤ c && c ≤ '\u200a') || c == '\u2028' || c == '\u2029' || c == '\u202f'
    || c == '\u205f' || c == '\u3000'

/-- What the answer to a line that is no request starts with. -/
def malformed : String := "malformed request"

/-- Answers a line; a blank line is passed over. -/
def handleLine (g : Graph) (line : String) : Graph × Option EditorResponse :=
  if line.toList.all isBlank then (g, none)
  else
    match EditorRequest.read? line with
    | none => (g, some (.error malformed false))
    | some r =>
      let (g, response) := handle g r
      (g, some response)

/-- Answers lines one after the other. -/
def serveLines (g : Graph) : List String → Graph × List EditorResponse
  | [] => (g, [])
  | line :: lines =>
    let (g, response) := handleLine g line
    let (g, responses) := serveLines g lines
    (g, response.toList ++ responses)

/-- Splits bytes into lines. A line ends before its line feed, and before a carriage return in
front of that; what follows the last line feed is a line unless it is empty. -/
def splitLines (bytes : List UInt8) : List (List UInt8) :=
  match bytes with
  | [] => []
  | _ => go [] bytes
where
  /-- Collects a line, last byte first. -/
  go (line : List UInt8) : List UInt8 → List (List UInt8)
    | [] => if line.isEmpty then [] else [line.reverse]
    | b :: rest =>
      if b = 10 then
        (match line with
          | 13 :: shorter => shorter.reverse
          | line => line.reverse) :: go [] rest
      else go (b :: line) rest

/-- Serves bytes line by line. A line that is not UTF-8 ends the service with an error. -/
def serveByteLines (g : Graph) : List (List UInt8) →
    Graph × List EditorResponse × Except Error Unit
  | [] => (g, [], .ok ())
  | line :: lines =>
    match String.fromUTF8? ⟨line.toArray⟩ with
    | none => (g, [], .error .io)
    | some text =>
      let (g, response) := handleLine g text
      let (g, responses, served) := serveByteLines g lines
      (g, response.toList ++ responses, served)

/-- Serves the bytes that a reader yields. -/
def serveBytes (g : Graph) (bytes : List UInt8) :
    Graph × List EditorResponse × Except Error Unit :=
  serveByteLines g (splitLines bytes)

end Patchbay.Session
