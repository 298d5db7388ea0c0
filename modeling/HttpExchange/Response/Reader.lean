import HttpExchange.Response.Chunk
import HttpExchange.Response.Framing
import HttpExchange.Response.Source

/-!
# Body readers

A reader hands out the body of one response. It has finished, failed or is somewhere in
the body; a reader that finishes or fails says so to its connection. Afterwards it is
inert: it repeats its outcome and touches neither transport nor connection.

A reading is a reader together with its link. Every read that hands out bytes lowers the
budget of the reading, so reading on until nothing more comes is bounded.
-/

namespace HttpExchange

/-- Where a reader stands in a chunked body. -/
inductive ChunkPlace
  | size
  | data (outstanding : Nat)
  | dataEnd
  | trailers
deriving DecidableEq, Repr

/-- How far a reader has come. -/
inductive Progress
  | fixed (outstanding : Nat)
  | chunked (place : ChunkPlace)
  | toClose
  | finished
  | failed (failure : Failure)
deriving DecidableEq, Repr

structure BodyReader where
  source : Source
  framing : Framing
  progress : Progress
deriving DecidableEq, Repr

namespace BodyReader

def start : Framing → Progress
  | .fixed 0 => .finished
  | .fixed n => .fixed n
  | .chunked => .chunked .size
  | .toClose => .toClose

/-- A reader over the bytes that came with the head and the room behind them. -/
def make (framing : Framing) (capacity : Nat) (staged : Bytes) : BodyReader :=
  ⟨.ofStaged capacity staged, framing, start framing⟩

/-- Nothing more will be handed out. -/
def isDone (r : BodyReader) : Bool :=
  match r.progress with
  | .finished | .failed _ => true
  | _ => false

end BodyReader

structure Reading (σ : Type) where
  reader : BodyReader
  link : Link σ

namespace Reading

variable {σ : Type} [SecureTransport σ]

def budget (x : Reading σ) : Nat := x.reader.source.budget x.link

/-- The reading after its source has worked on the link. -/
def resume (x : Reading σ) (source : Source) (link : Link σ) : Reading σ :=
  ⟨{ x.reader with source }, link⟩

def moveTo (x : Reading σ) (progress : Progress) : Reading σ :=
  { x with reader := { x.reader with progress } }

def finish (x : Reading σ) (phase : Phase) : Reading σ :=
  let x := x.moveTo .finished
  { x with link := x.link.enter phase }

/-- The first failure is kept and poisons the connection. -/
def fail {α : Type} (x : Reading σ) (failure : Failure) : Except Failure α × Reading σ :=
  let link := (x.link.log .debug
    [ascii "body: ", x.reader.framing.name, ascii " read failed: ", failure.message]).enter .poisoned
  (.error failure, ({ x with link } : Reading σ).moveTo (.failed failure))

/-! ## Framing -/

/-- Feeds a scanner until it has seen its end. -/
def scan {s α : Type} (step : s → UInt8 → Verdict s α) (state : s) (x : Reading σ) :
    Except Failure α × Reading σ :=
  match _h : x.reader.source.readByte x.link with
  | (.error failure, source, link) => (x.resume source link).fail (.network failure)
  | (.ok none, source, link) => (x.resume source link).fail (.cutOff .chunkFraming)
  | (.ok (some b), source, link) =>
    match step state b with
    | .more state => scan step state (x.resume source link)
    | .done value => (.ok value, x.resume source link)
    | .fault fault => (x.resume source link).fail (.badChunk fault)
termination_by x.budget
decreasing_by exact Source.budget_of_readByte _h

/-! ## Reading -/

def readFixed (x : Reading σ) (outstanding n : Nat) : Except Failure Bytes × Reading σ :=
  match x.reader.source.read x.link (min n outstanding) with
  | (.error failure, source, link) => (x.resume source link).fail (.network failure)
  | (.ok [], source, link) => (x.resume source link).fail (.cutOff (.fixedBody outstanding))
  | (.ok (b :: bytes), source, link) =>
    let x := x.resume source link
    let rest := outstanding - (b :: bytes).length
    (.ok (b :: bytes), if rest = 0 then x.finish .idle else x.moveTo (.fixed rest))

def readToClose (x : Reading σ) (n : Nat) : Except Failure Bytes × Reading σ :=
  match x.reader.source.read x.link n with
  | (.error failure, source, link) => (x.resume source link).fail (.network failure)
  | (.ok [], source, link) => (.ok [], (x.resume source link).finish .closed)
  | (.ok (b :: bytes), source, link) => (.ok (b :: bytes), x.resume source link)

/-- Reads data of a chunk, at most what is outstanding of it. -/
def readData (x : Reading σ) (outstanding n : Nat) : Except Failure Bytes × Reading σ :=
  match x.reader.source.read x.link (min n outstanding) with
  | (.error failure, source, link) => (x.resume source link).fail (.network failure)
  | (.ok [], source, link) => (x.resume source link).fail (.cutOff .chunk)
  | (.ok (b :: bytes), source, link) =>
    let rest := outstanding - (b :: bytes).length
    (.ok (b :: bytes), (x.resume source link).moveTo
      (.chunked (if rest = 0 then .dataEnd else .data rest)))

/-- Skips the trailer lines, with which the body ends. -/
def readTrailers (x : Reading σ) : Except Failure Bytes × Reading σ :=
  match scan Trailers.step .lineStart x with
  | (.error failure, x) => (.error failure, x)
  | (.ok (), x) => (.ok [], x.finish .idle)

/-- Reads a size line and then what it announces. -/
def readChunk (x : Reading σ) (n : Nat) : Except Failure Bytes × Reading σ :=
  match scan SizeLine.step .start x with
  | (.error failure, x) => (.error failure, x)
  | (.ok size, x) =>
    let x := { x with
      link := x.link.log .trace [ascii "body: chunk of ", Numeral.decimal size, ascii " bytes"] }
    if size = 0 then (x.moveTo (.chunked .trailers)).readTrailers
    else (x.moveTo (.chunked (.data size))).readData size n

/-- Reads the end of a chunk's data and then the next chunk. -/
def readDataEnd (x : Reading σ) (n : Nat) : Except Failure Bytes × Reading σ :=
  match scan DataEnd.step .wantsCr x with
  | (.error failure, x) => (.error failure, x)
  | (.ok (), x) => (x.moveTo (.chunked .size)).readChunk n

def readChunked (x : Reading σ) (n : Nat) : ChunkPlace → Except Failure Bytes × Reading σ
  | .size => x.readChunk n
  | .data outstanding => x.readData outstanding n
  | .dataEnd => x.readDataEnd n
  | .trailers => x.readTrailers

/-- Hands out at most `n` bytes of the body, and none at its end. -/
def read (x : Reading σ) (n : Nat) : Except Failure Bytes × Reading σ :=
  match x.reader.progress with
  | .failed failure => (.error failure, x)
  | .finished => (.ok [], x)
  | .fixed outstanding => if n = 0 then (.ok [], x) else x.readFixed outstanding n
  | .chunked place => if n = 0 then (.ok [], x) else x.readChunked n place
  | .toClose => if n = 0 then (.ok [], x) else x.readToClose n

/-! ## The budget of a read -/

theorem budget_finish (x : Reading σ) (phase : Phase) : (x.finish phase).budget = x.budget := rfl

theorem budget_moveTo (x : Reading σ) (progress : Progress) :
    (x.moveTo progress).budget = x.budget := rfl

theorem budget_of_scan {s α : Type} {step : s → UInt8 → Verdict s α} {state : s} {value : α}
    {x x' : Reading σ} (h : scan step state x = (.ok value, x')) : x'.budget < x.budget := by
  fun_induction scan step state x with
  | case1 => simp [fail] at h
  | case2 => simp [fail] at h
  | case3 state x b source link hb next hs ih =>
    exact Nat.lt_trans (ih h) (Source.budget_of_readByte hb)
  | case4 state x b source link hb v hs =>
    simp only [Prod.mk.injEq] at h
    rw [← h.2]
    exact Source.budget_of_readByte hb
  | case5 => simp [fail] at h

theorem budget_of_readFixed {x x' : Reading σ} {k n : Nat} {data : Bytes}
    (h : x.readFixed k n = (.ok data, x')) : x'.budget + data.length ≤ x.budget := by
  unfold readFixed at h
  split at h
  · simp [fail] at h
  · simp [fail] at h
  · rename_i b bytes source link hr
    simp only [Prod.mk.injEq, Except.ok.injEq] at h
    have := Source.budget_of_read hr
    rw [← h.1, ← h.2]
    split <;> exact this

theorem budget_of_readToClose {x x' : Reading σ} {n : Nat} {data : Bytes}
    (h : x.readToClose n = (.ok data, x')) : x'.budget + data.length ≤ x.budget := by
  unfold readToClose at h
  split at h
  · simp [fail] at h
  · rename_i source link hr
    simp only [Prod.mk.injEq, Except.ok.injEq] at h
    rw [← h.1, ← h.2, budget_finish]
    exact Source.budget_of_read hr
  · rename_i b bytes source link hr
    simp only [Prod.mk.injEq, Except.ok.injEq] at h
    rw [← h.1, ← h.2]
    exact Source.budget_of_read hr

theorem budget_of_readData {x x' : Reading σ} {k n : Nat} {data : Bytes}
    (h : x.readData k n = (.ok data, x')) : x'.budget + data.length ≤ x.budget := by
  unfold readData at h
  split at h
  · simp [fail] at h
  · simp [fail] at h
  · rename_i b bytes source link hr
    simp only [Prod.mk.injEq, Except.ok.injEq] at h
    rw [← h.1, ← h.2]
    exact Source.budget_of_read hr

theorem budget_of_readTrailers {x x' : Reading σ} {data : Bytes}
    (h : x.readTrailers = (.ok data, x')) : x'.budget + data.length ≤ x.budget := by
  unfold readTrailers at h
  split at h
  · simp at h
  · rename_i y hs
    simp only [Prod.mk.injEq, Except.ok.injEq] at h
    rw [← h.1, ← h.2, budget_finish]
    exact Nat.le_of_lt (budget_of_scan hs)

theorem budget_of_readChunk {x x' : Reading σ} {n : Nat} {data : Bytes}
    (h : x.readChunk n = (.ok data, x')) : x'.budget + data.length ≤ x.budget := by
  unfold readChunk at h
  split at h
  · simp at h
  · rename_i size y hs
    have hlt := Nat.le_of_lt (budget_of_scan hs)
    dsimp only at h
    split at h
    · exact Nat.le_trans (budget_of_readTrailers h) hlt
    · exact Nat.le_trans (budget_of_readData h) hlt

theorem budget_of_readDataEnd {x x' : Reading σ} {n : Nat} {data : Bytes}
    (h : x.readDataEnd n = (.ok data, x')) : x'.budget + data.length ≤ x.budget := by
  unfold readDataEnd at h
  split at h
  · simp at h
  · rename_i y hs
    have := budget_of_readChunk h
    rw [budget_moveTo] at this
    exact Nat.le_trans this (Nat.le_of_lt (budget_of_scan hs))

theorem budget_of_read {x x' : Reading σ} {n : Nat} {data : Bytes}
    (h : x.read n = (.ok data, x')) : x'.budget + data.length ≤ x.budget := by
  have nothing {y : Reading σ} (hy : ((.ok [], x) : Except Failure Bytes × Reading σ)
      = (.ok data, y)) : y.budget + data.length ≤ x.budget := by
    simp only [Prod.mk.injEq, Except.ok.injEq] at hy
    simp [← hy.1, ← hy.2]
  unfold read at h
  split at h
  · simp at h
  · exact nothing h
  · split at h
    · exact nothing h
    · exact budget_of_readFixed h
  · split at h
    · exact nothing h
    · unfold readChunked at h
      split at h
      · exact budget_of_readChunk h
      · exact budget_of_readData h
      · exact budget_of_readDataEnd h
      · exact budget_of_readTrailers h
  · split at h
    · exact nothing h
    · exact budget_of_readToClose h

end Reading

end HttpExchange
