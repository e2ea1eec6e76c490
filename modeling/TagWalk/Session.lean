import TagWalk.Prolog
import TagWalk.Trace

/-! # Sessions

A **session** is a reader at work: the reader itself, the state that the visitors share, and the
trace so far. The steps of a reader that concern no visitor are lifted to sessions here, each with
the events it leaves in the trace. -/

namespace TagWalk

/-- A reader at work, with all that is kept of the work so far. -/
structure Session (ι σ ε : Type) where
  /-- The reader. -/
  reader : Reader
  /-- What the visitors share. -/
  state : σ
  /-- How many documents are being read around this one. -/
  level : Nat
  /-- What happened so far. -/
  trace : Array (Moment ι ε)

namespace Session

variable {ι σ ε α : Type}

/-- A session that begins with a reader and a state, on the outermost document and with an empty
trace. -/
def start (reader : Reader) (state : σ) : Session ι σ ε := ⟨reader, state, 0, #[]⟩

/-- Add an event to the trace, as a moment with the session's level and the reader as it is now. -/
def record (session : Session ι σ ε) (event : Event ι ε) : Session ι σ ε :=
  { session with trace := session.trace.push ⟨session.level, session.reader, event⟩ }

/-- Add log records to the trace. -/
def log (session : Session ι σ ε) (records : List LogRecord) : Session ι σ ε :=
  records.foldl (fun session record => session.record (.log record)) session

/-- Let the reader take a step, and log what the step logs: the records come behind the step, so
their moments show the reader that `operation` has left. -/
def step (session : Session ι σ ε) (operation : Reader → Reader × Logged α) :
    Session ι σ ε × Except Fault α :=
  let (reader, logged) := operation session.reader
  ({ session with reader }.log logged.log, logged.result)

/-- Return to the front of the document. -/
def reset (session : Session ι σ ε) : Session ι σ ε :=
  { session with reader := session.reader.reset }.record .reset

/-- Drop the scopes and the mark, as every parse does when it begins; the place in the document
stays. -/
def beginParse (session : Session ι σ ε) (visitor : ι) : Session ι σ ε :=
  { session with reader := session.reader.dropScopes }.record (.parse visitor)

/-- Skip the prolog. -/
def skipProlog (session : Session ι σ ε) : Session ι σ ε × Except Fault Unit :=
  session.step fun reader =>
    let (cursor, logged) := reader.cursor.skipProlog
    ({ reader with cursor }, logged)

/-- Open a scope. -/
def enterScope (session : Session ι σ ε) (element : Option Node) :
    Session ι σ ε × Except Fault Unit :=
  session.step (·.enterScope element)

/-- Leave the innermost scope, if one is still open. -/
def leaveScope (session : Session ι σ ε) : Session ι σ ε :=
  let (reader, left) := session.reader.leaveScope
  { session with reader }.log [left]

/-- Open the node of a tag. -/
def openNode (session : Session ι σ ε) (tag : Tag) : Session ι σ ε × Except Fault Node :=
  session.step (·.openNode tag)

/-- Read the body of a node. -/
def readBody (session : Session ι σ ε) (node : Node) : Session ι σ ε × Except Fault Bytes :=
  let (session, result) := session.step (·.readBody node)
  (session.record (.body node result), result)

/-- **Skip what is left of a node** that a visitor has let go: its body is read and thrown away, by
the same step as in `readBody`, and the event is a `.skip`. -/
def skip (session : Session ι σ ε) (node : Node) : Session ι σ ε × Except Fault Bytes :=
  let (session, result) := session.step (·.readBody node)
  (session.record (.skip node result), result)

/-- Pass a tag that is no element, and log it. -/
def skipMarkup (session : Session ι σ ε) (tag : Tag) : Session ι σ ε :=
  { session with reader := session.reader.passTag tag }.log [.skippingDeclaration tag.start]

/-- Pass the closing tag that ends the children of `parent`, whatever name it bears, and mark
`parent` as closed. -/
def close (session : Session ι σ ε) (parent : Node) (tag : Tag) : Session ι σ ε :=
  { session with reader := (session.reader.passTag tag).markClosed parent }.record
    (.close parent tag)

/-- Begin to read another document inside the work on this one: a new reader with `Options.lenient`,
one level further in. -/
def nest (session : Session ι σ ε) (document : Bytes) : Session ι σ ε :=
  { session with reader := .ofDocument document .lenient, level := session.level + 1 }

/-- Return from the other document to the reader `outer`, with all that happened there kept in the
trace. -/
def unnest (session : Session ι σ ε) (outer : Reader) (level : Nat) : Session ι σ ε :=
  { session with reader := outer, level }

/-- The moments of the work on this document: those of the session's own `level`, without those of
documents read inside it. -/
def ownMoments (session : Session ι σ ε) : List (Moment ι ε) :=
  session.trace.toList.filter (·.level == session.level)

/-- **The visits** made so far on this document, as `Moment.sight?` shows them. -/
def sights (session : Session ι σ ε) : List Sight := session.ownMoments.filterMap Moment.sight?

/-- **The bodies** read so far on this document, in the order of the reads, without those that were
skipped. -/
def bodies (session : Session ι σ ε) : List Bytes := session.ownMoments.filterMap Moment.body?

/-- **The records** logged so far on this document. -/
def records (session : Session ι σ ε) : List LogRecord :=
  session.ownMoments.filterMap Moment.record?

@[simp] theorem reader_record (session : Session ι σ ε) (event : Event ι ε) :
    (session.record event).reader = session.reader := rfl

@[simp] theorem reader_log (session : Session ι σ ε) (records : List LogRecord) :
    (session.log records).reader = session.reader := by
  unfold log
  induction records generalizing session with
  | nil => rfl
  | cons record records ih => exact ih (session.record (.log record))

@[simp] theorem level_record (session : Session ι σ ε) (event : Event ι ε) :
    (session.record event).level = session.level := rfl

@[simp] theorem state_record (session : Session ι σ ε) (event : Event ι ε) :
    (session.record event).state = session.state := rfl

@[simp] theorem trace_record (session : Session ι σ ε) (event : Event ι ε) :
    (session.record event).trace.toList =
      session.trace.toList ++ [⟨session.level, session.reader, event⟩] := by
  simp [record]

@[simp] theorem level_log (session : Session ι σ ε) (records : List LogRecord) :
    (session.log records).level = session.level := by
  unfold log
  induction records generalizing session with
  | nil => rfl
  | cons record records ih => exact ih (session.record (.log record))

@[simp] theorem state_log (session : Session ι σ ε) (records : List LogRecord) :
    (session.log records).state = session.state := by
  unfold log
  induction records generalizing session with
  | nil => rfl
  | cons record records ih => exact ih (session.record (.log record))

/-- Each record adds one moment, and all of them show the same reader:
`Moment.logs session.level session.reader records` stands behind the trace. -/
@[simp] theorem trace_log (session : Session ι σ ε) (records : List LogRecord) :
    (session.log records).trace.toList =
      session.trace.toList ++ Moment.logs session.level session.reader records := by
  unfold log
  induction records generalizing session with
  | nil => simp [Moment.logs]
  | cons record records ih =>
    rw [List.foldl_cons, ih (session.record (.log record))]
    simp [Moment.logs]

@[simp] theorem reader_step (session : Session ι σ ε) (operation : Reader → Reader × Logged α) :
    (session.step operation).1.reader = (operation session.reader).1 := by
  simp [step]

@[simp] theorem level_step (session : Session ι σ ε) (operation : Reader → Reader × Logged α) :
    (session.step operation).1.level = session.level := by
  simp [step]

@[simp] theorem state_step (session : Session ι σ ε) (operation : Reader → Reader × Logged α) :
    (session.step operation).1.state = session.state := by
  simp [step]

@[simp] theorem trace_step (session : Session ι σ ε) (operation : Reader → Reader × Logged α) :
    (session.step operation).1.trace.toList = session.trace.toList ++
      Moment.logs session.level (operation session.reader).1 (operation session.reader).2.log := by
  simp [step]

@[simp] theorem result_step (session : Session ι σ ε) (operation : Reader → Reader × Logged α) :
    (session.step operation).2 = (operation session.reader).2.result := rfl

end Session

end TagWalk
