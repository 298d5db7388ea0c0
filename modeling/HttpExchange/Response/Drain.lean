import HttpExchange.Response.Reader

/-!
# Reading a body to its end

Three ways to take all that is left of a body: in pieces, as a count, or into the receive
buffer. Each of them reads on until nothing more comes and so leaves the connection as a
loop of reads does; only a body that is too long for the buffer fails there.
-/

namespace HttpExchange

namespace Reading

variable {σ : Type} [SecureTransport σ]

/-- Reads `n` bytes at a time until nothing comes any more. The last of the readings is
empty unless the reader fails. -/
def readAll (x : Reading σ) (n : Nat) : List Bytes × Except Failure Unit × Reading σ :=
  match _h : x.read n with
  | (.error failure, x) => ([], .error failure, x)
  | (.ok [], x) => ([[]], .ok (), x)
  | (.ok (b :: bytes), y) =>
    let (more, outcome, y) := y.readAll n
    ((b :: bytes) :: more, outcome, y)
termination_by x.budget
decreasing_by
  have := budget_of_read _h
  simp only [List.length_cons] at this
  omega

def discardStep : Nat := 256

/-- Reads the rest of the body and only counts it. -/
def discard (x : Reading σ) : Except Failure Nat × Reading σ :=
  match x.readAll discardStep with
  | (_, .error failure, x) => (.error failure, x)
  | (pieces, .ok (), x) => (.ok pieces.flatten.length, x)

def mapSource (x : Reading σ) (f : Source → Source) : Reading σ :=
  { x with reader := { x.reader with source := f x.reader.source } }

/-- Reads on into the buffer behind the `out` bytes that stand there already. With no room
left one byte more is asked for, since the body may be complete but for its end. -/
def collect (x : Reading σ) (out : Nat) : Except Failure Nat × Reading σ :=
  if x.reader.source.capacity ≤ out then
    -- The byte that is asked for here has no place, so it must not come.
    match (x.mapSource fun s => { s with floor := out }).read 1 with
    | (.error failure, x) => (.error failure, x)
    | (.ok [], x) => (.ok out, x)
    | (.ok (_ :: _), x) => x.fail (.tooLong .body)
  else
    match _h : (x.mapSource fun s => { s with floor := out }).read
        (x.reader.source.capacity - out) with
    | (.error failure, x) => (.error failure, x)
    | (.ok [], x) => (.ok out, x)
    | (.ok (b :: bytes), y) =>
      (y.mapSource fun s => s.store out (b :: bytes)).collect (out + (b :: bytes).length)
termination_by x.budget
decreasing_by
  have := budget_of_read _h
  simp only [List.length_cons] at this
  simp only [budget, mapSource, Source.budget, Source.store] at this ⊢
  omega

/-- Reads the rest of the body into the receive buffer, from its front. -/
def readToEnd (x : Reading σ) : Except Failure Bytes × Reading σ :=
  match x.reader.progress with
  | .failed failure => (.error failure, x)
  | _ =>
    match (x.mapSource Source.compact).collect 0 with
    | (.error failure, x) => (.error failure, x)
    | (.ok out, x) => (.ok (x.reader.source.memory.take out), x)

end Reading

end HttpExchange
