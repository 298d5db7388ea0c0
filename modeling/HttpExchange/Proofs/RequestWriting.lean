import HttpExchange.Proofs.Outbound
import HttpExchange.Request

/-!
# Requests on channels

As long as a channel is not broken, every step of a pen hands its piece over behind what was
handed over before, and once it is broken the pen does nothing more (`Pen.Stands`). So a
request hands over what `Request.serialized` says, unless the body itself goes wrong: it may
report a failure of its own, or hand over another number of bytes than it has declared. A
request succeeds exactly if its body does neither and the channel holds
(`Request.write_outcome`); on a sink, which accepts everything, only the body can fail it
(`Request.write_ok_iff`).
-/

namespace HttpExchange

/-! ## Bodies that keep their word -/

/-- How an emission ends whose every write succeeds. -/
def Emission.verdict : Emission → Except TransportFailure Unit
  | .done => .ok ()
  | .failed failure => .error failure
  | .write _ next => (next (.ok ())).verdict

/-- The body ends well, and it is as long as it says. -/
structure Body.Honest (body : Body) : Prop where
  succeeds : body.emission.verdict = .ok ()
  length_eq {n : Nat} : body.size = some n → body.emission.fragments.flatten.length = n

def Request.Honest (r : Request) : Prop := ∀ body, r.body = some body → body.Honest

/-- A body of unknown size whose every write succeeds keeps its word. -/
theorem Body.honest_of_unsized {body : Body} (hverdict : body.emission.verdict = .ok ())
    (hsize : body.size = none) : body.Honest := by
  refine ⟨hverdict, ?_⟩
  intro n hn
  simp [hsize] at hn

/-- A body of known size whose every write succeeds keeps its word if it comes to that size. -/
theorem Body.honest_iff_length {body : Body} {n : Nat}
    (hverdict : body.emission.verdict = .ok ()) (hsize : body.size = some n) :
    body.Honest ↔ body.emission.fragments.flatten.length = n := by
  constructor
  · exact fun honest => honest.length_eq hsize
  · intro hlength
    refine ⟨hverdict, ?_⟩
    intro m hm
    obtain rfl := Option.some.inj (hsize.symm.trans hm)
    exact hlength

theorem Request.honest_iff_body {r : Request} {body : Body} (hbody : r.body = some body) :
    r.Honest ↔ body.Honest := by
  constructor
  · exact fun honest => honest body hbody
  · intro honest other hother
    obtain rfl : body = other := by simpa [hbody] using hother
    exact honest

/-- What is wrong with a body whose every write succeeds: it ends with a failure of its own, or
else it is not as long as it says. -/
inductive Body.Fault (body : Body) : TransportFailure → Prop
  | own {failure : TransportFailure} : body.emission.verdict = .error failure → Fault body failure
  | length {declared : Nat} : body.size = some declared → body.emission.verdict = .ok () →
    body.emission.fragments.flatten.length ≠ declared →
    Fault body (.wrongLength body.emission.fragments.flatten.length declared)

theorem Body.Fault.not_honest {body : Body} {failure : TransportFailure}
    (h : body.Fault failure) : ¬ body.Honest := by
  intro honest
  rcases h with hown | ⟨hsize, -, hlength⟩
  · rw [honest.succeeds] at hown
    cases hown
  · exact hlength (honest.length_eq hsize)

/-- Fragments of a body as they stand on the wire. -/
def Body.framed (body : Body) (fragments : List Bytes) : Bytes :=
  match body.size with
  | some _ => fragments.flatten
  | none => (fragments.flatMap Pen.chunkPieces).flatten ++ Pen.lastChunk

theorem Emission.verdict_careful (ending : Emission) (fragments : List Bytes) :
    (careful ending fragments).verdict = ending.verdict := by
  induction fragments with
  | nil => rfl
  | cons data rest ih => exact ih

theorem Emission.fragments_careful (fragments : List Bytes) :
    (careful .done fragments).fragments = fragments := by
  induction fragments with
  | nil => rfl
  | cons data rest ih => exact congrArg (data :: ·) ih

theorem Body.honest_ofBytes (data : Bytes) : (Body.ofBytes data).Honest := by
  rw [Body.honest_iff_length rfl rfl]
  show (data ++ []).length = data.length
  rw [List.append_nil]

theorem Body.honest_ofFragments (fragments : List Bytes) : (Body.ofFragments fragments).Honest :=
  Body.honest_of_unsized (Emission.verdict_careful .done fragments) rfl

/-- A body that is given beforehand: there is none, or it is there as a whole or in fragments. -/
inductive Payload
  | none
  | bytes (data : Bytes)
  | fragments (pieces : List Bytes)
deriving DecidableEq, Repr

namespace Payload

def body? : Payload → Option Body
  | none => .none
  | bytes data => some (.ofBytes data)
  | fragments pieces => some (.ofFragments pieces)

/-- What the peer is to have of it. -/
def text : Payload → Bytes
  | none => []
  | bytes data => data
  | fragments pieces => pieces.flatten

theorem honest (payload : Payload) {r : Request} (h : r.body = payload.body?) : r.Honest := by
  intro body hbody
  rw [h] at hbody
  cases payload with
  | none => cases hbody
  | bytes data =>
      cases hbody
      exact Body.honest_ofBytes data
  | fragments pieces =>
      cases hbody
      exact Body.honest_ofFragments pieces

end Payload

/-! ## Pens on a channel -/

namespace Pen

theorem failure_fail {σ : Type} {pen : Pen σ} (failure : TransportFailure)
    (h : pen.failure = none) : (pen.fail failure).failure = some failure := by
  show (pen.failure <|> some failure) = some failure
  rw [h]
  rfl

/-- Only the first failure counts. -/
theorem fail_of_failure {σ : Type} {pen : Pen σ} {first failure : TransportFailure}
    (h : pen.failure = some first) : pen.fail failure = pen := by
  obtain ⟨link, outcome, streamed⟩ := pen
  cases h
  rfl

theorem flatten_map_chunkPieces (fragments : List Bytes) :
    (fragments.map fun data => (chunkPieces data).flatten).flatten
      = (fragments.flatMap chunkPieces).flatten := by
  induction fragments with
  | nil => rfl
  | cons data rest ih =>
      rw [List.map_cons, List.flatten_cons, ih, List.flatMap_cons, List.flatten_append]

theorem foldr_length (fragments : List Bytes) :
    fragments.foldr (fun data n => data.length + n) 0 = fragments.flatten.length := by
  induction fragments with
  | nil => rfl
  | cons data rest ih =>
      rw [List.foldr_cons, ih, List.flatten_cons, List.length_append]

/-! ## Pens that have failed -/

/-- A way of putting fragments that leaves the link of a failed pen alone, and its failure. -/
def Stops {σ : Type} (emit : Pen σ → Bytes → Pen σ) : Prop :=
  ∀ {pen : Pen σ} {failure}, pen.failure = some failure → ∀ data,
    (emit pen data).link = pen.link ∧ (emit pen data).failure = some failure

/-- Whatever a body goes on to hand over, a failed pen does nothing more with it. -/
theorem Stops.stream {σ : Type} {pen : Pen σ} {emit : Pen σ → Bytes → Pen σ} (hstops : Stops emit)
    {failure : TransportFailure} (emission : Emission) (h : pen.failure = some failure) :
    (Pen.stream emit emission pen).2.link = pen.link ∧
      (Pen.stream emit emission pen).2.failure = some failure := by
  induction emission generalizing pen with
  | done => exact ⟨rfl, h⟩
  | failed own => exact ⟨rfl, h⟩
  | write data next ih =>
      obtain ⟨hlink, hfailure⟩ := hstops h data
      obtain ⟨hlink', hfailure'⟩ := ih (emit pen data).status hfailure
      exact ⟨hlink'.trans hlink, hfailure'⟩

/-! ## What was handed over -/

/-- Fragments that an emission hands over when it is streamed through a pen, as long as the pen
has not failed. What it goes on to hand over to a failed pen does not matter. -/
inductive Hands {σ : Type} (emit : Pen σ → Bytes → Pen σ) : Emission → Pen σ → List Bytes → Prop
  | done (pen : Pen σ) : Hands emit .done pen []
  | failed (failure : TransportFailure) (pen : Pen σ) : Hands emit (.failed failure) pen []
  | write {data : Bytes} {next : Except TransportFailure Unit → Emission} {pen : Pen σ}
    {rest : List Bytes} : Hands emit (next (emit pen data).status) (emit pen data) rest →
    Hands emit (.write data next) pen (data :: rest)
  | stopped {emission : Emission} {pen : Pen σ} {failure : TransportFailure} :
    pen.failure = some failure → ∀ rest, Hands emit emission pen rest

/-- The fragments that an emission hands over, also to a pen that has failed. -/
def handed {σ : Type} (emit : Pen σ → Bytes → Pen σ) : Emission → Pen σ → List Bytes
  | .done, _ => []
  | .failed _, _ => []
  | .write data next, pen => data :: handed emit (next (emit pen data).status) (emit pen data)

theorem hands_handed {σ : Type} (emit : Pen σ → Bytes → Pen σ) (emission : Emission)
    (pen : Pen σ) : Hands emit emission pen (handed emit emission pen) := by
  induction emission generalizing pen with
  | done => exact .done pen
  | failed failure => exact .failed failure pen
  | write data next ih => exact .write (ih _ _)

/-- A body that is told that all is well hands over the fragments it has. -/
theorem hands_fragments {σ : Type} (emit : Pen σ → Bytes → Pen σ) (emission : Emission)
    (pen : Pen σ) : Hands emit emission pen emission.fragments := by
  induction emission generalizing pen with
  | done => exact .done pen
  | failed failure => exact .failed failure pen
  | write data next ih =>
      refine .write ?_
      cases hfailure : (emit pen data).failure with
      | none =>
          have hstatus : (emit pen data).status = .ok () := by rw [status, hfailure]
          rw [hstatus]
          exact ih _ _
      | some failure => exact .stopped hfailure _

/-- Where the pen has not failed in the end, the body was told that all is well. -/
theorem Hands.of_ok {σ : Type} {emit : Pen σ → Bytes → Pen σ} (hstops : Stops emit)
    {emission : Emission} {pen : Pen σ} {fragments : List Bytes}
    (h : Hands emit emission pen fragments)
    (hok : (Pen.stream emit emission pen).2.failure = none) :
    fragments = emission.fragments ∧ (Pen.stream emit emission pen).1 = emission.verdict := by
  induction h with
  | done pen => exact ⟨rfl, rfl⟩
  | failed failure pen => exact ⟨rfl, rfl⟩
  | @write data next pen rest _ ih =>
      have hstatus : (emit pen data).status = .ok () := by
        cases hfailure : (emit pen data).failure with
        | none => rw [status, hfailure]
        | some failure =>
            have hlater := (hstops.stream (next (emit pen data).status) hfailure).2
            rw [Pen.stream, hlater] at hok
            cases hok
      obtain ⟨hrest, hverdict⟩ := ih hok
      rw [hstatus] at hrest hverdict
      refine ⟨by rw [hrest, Emission.fragments], ?_⟩
      rw [Pen.stream, hstatus, hverdict, Emission.verdict]
  | stopped hfailure rest =>
      rw [(hstops.stream _ hfailure).2] at hok
      cases hok

variable {σ : Type} [SecureTransport σ] {offer : σ → Bytes → Except TransportFailure Nat × σ}
  {C : Channel offer} {l : Link σ} {pen : Pen σ} {text : Bytes} {k : Nat}

theorem put_of_failure {failure : TransportFailure} (h : pen.failure = some failure)
    (piece : Bytes) : pen.put piece = pen := by
  unfold put
  rw [if_pos (.inl (by simp [h]))]

theorem putAll_of_failure {failure : TransportFailure} (h : pen.failure = some failure)
    (pieces : List Bytes) : pen.putAll pieces = pen := by
  induction pieces with
  | nil => rfl
  | cons piece more ih =>
      show (pen.put piece).putAll more = pen
      rw [put_of_failure h, ih]

theorem flush_of_failure {failure : TransportFailure} (h : pen.failure = some failure) :
    pen.flush = pen := by
  unfold Pen.flush
  rw [if_pos (by simp [h])]

theorem flush_of_ok (h : pen.failure = none) {link : Link σ}
    (hflush : pen.link.flush = (.ok (), link)) : pen.flush = { pen with link } := by
  unfold Pen.flush
  rw [if_neg (by simp [h]), hflush]

theorem flush_of_error (h : pen.failure = none) {failure : TransportFailure} {link : Link σ}
    (hflush : pen.link.flush = (.error failure, link)) :
    pen.flush = { pen with link, failure := some failure } := by
  unfold Pen.flush
  rw [if_neg (by simp [h]), hflush]

theorem putBody_of_failure {failure : TransportFailure} (h : pen.failure = some failure)
    (body : Body) : pen.putBody body = pen := by
  unfold putBody
  rw [if_pos (by simp [h])]

theorem stops_putFragment : Stops (putFragment : Pen σ → Bytes → Pen σ) := by
  intro pen failure h data
  unfold putFragment
  rw [put_of_failure h]
  exact ⟨rfl, h⟩

theorem stops_putChunk : Stops (putChunk : Pen σ → Bytes → Pen σ) := by
  intro pen failure h data
  unfold putChunk
  rw [putAll_of_failure h]
  exact ⟨rfl, h⟩

/-! ## Steps of a pen -/

/-- A pen that started on `l` was given `text`, of which `k` bytes count for the body. It has
handed it over, or the channel was broken on the way. -/
structure Stands (C : Channel offer) (l : Link σ) (pen : Pen σ) (text : Bytes) (k : Nat) :
    Prop where
  keeps : Link.Keeps l pen.link
  on : pen.failure = none → C.On pen.link text ∧ pen.streamed = k
  broken {failure : TransportFailure} : pen.failure = some failure →
    C.broken pen.link.wire failure text

theorem stands_on (h : C.On l text) : Stands C l (Pen.on l) text 0 :=
  ⟨.refl l, fun _ => ⟨h, rfl⟩, fun hsome => by cases hsome⟩

/-- A pen that has failed stays where it is, whatever more is given to it. -/
theorem Stands.of_failure (h : Stands C l pen text k) {failure : TransportFailure}
    (hfailure : pen.failure = some failure) {pen' : Pen σ} (hlink : pen'.link = pen.link)
    (hfailure' : pen'.failure = some failure) (more : Bytes) (k' : Nat) :
    Stands C l pen' (text ++ more) k' := by
  refine ⟨by rw [hlink]; exact h.keeps, ?_, ?_⟩
  · intro hnone
    rw [hfailure'] at hnone
    cases hnone
  · intro failure' hsome
    rw [hfailure'] at hsome
    cases hsome
    rw [hlink]
    exact C.broken_append more (h.broken hfailure)

theorem Stands.put (h : Stands C l pen text k) (piece : Bytes) :
    Stands C l (pen.put piece) (text ++ piece) k := by
  cases hfailure : pen.failure with
  | some failure =>
      rw [put_of_failure hfailure]
      exact h.of_failure hfailure rfl hfailure piece k
  | none =>
      obtain ⟨hon, hstreamed⟩ := h.on hfailure
      unfold Pen.put
      by_cases hpiece : piece = []
      · rw [if_pos (.inr hpiece), hpiece, List.append_nil]
        exact h
      · rw [if_neg (by simp [hfailure, hpiece])]
        cases hon.writeAll piece with
        | succeeds value link call holds =>
            rw [call]
            refine ⟨h.keeps.trans holds.2, fun _ => ⟨holds.1, hstreamed⟩, ?_⟩
            intro failure hsome
            rw [show ({ pen with link } : Pen σ).failure = pen.failure from rfl, hfailure] at hsome
            cases hsome
        | fails failure link call holds =>
            rw [call]
            refine ⟨h.keeps.trans holds.2, ?_, ?_⟩
            · intro hnone
              cases hnone
            · intro failure' hsome
              cases hsome
              exact holds.1

theorem Stands.putAll (h : Stands C l pen text k) (pieces : List Bytes) :
    Stands C l (pen.putAll pieces) (text ++ pieces.flatten) k := by
  induction pieces generalizing pen text with
  | nil =>
      show Stands C l pen (text ++ []) k
      rwa [List.append_nil]
  | cons piece more ih =>
      have hmore := ih (h.put piece)
      rwa [List.append_assoc] at hmore

theorem Stands.putFragment (h : Stands C l pen text k) (data : Bytes) :
    Stands C l (pen.putFragment data) (text ++ data) (k + data.length) := by
  obtain ⟨hkeeps, hon, hbroken⟩ := h.put data
  refine ⟨hkeeps, ?_, hbroken⟩
  intro hnone
  obtain ⟨hon', hstreamed⟩ := hon hnone
  refine ⟨hon', ?_⟩
  show (pen.put data).streamed + data.length = k + data.length
  rw [hstreamed]

/-- What an emission hands over, each of its fragments in a frame. -/
theorem Stands.stream {emit : Pen σ → Bytes → Pen σ} (frame : Bytes → Bytes) (count : Bytes → Nat)
    (hstops : Stops emit)
    (hemit : ∀ {pen text k} data, Stands C l pen text k →
      Stands C l (emit pen data) (text ++ frame data) (k + count data))
    {emission : Emission} {fragments : List Bytes} (hfragments : Hands emit emission pen fragments)
    (h : Stands C l pen text k) :
    Stands C l (Pen.stream emit emission pen).2 (text ++ (fragments.map frame).flatten)
      (k + fragments.foldr (fun data n => count data + n) 0) := by
  induction hfragments generalizing text k with
  | done pen => simpa [Pen.stream] using h
  | failed failure pen => simpa [Pen.stream] using h
  | @write data next pen rest _ ih =>
      rw [List.map_cons, List.flatten_cons, List.foldr_cons, ← List.append_assoc, ← Nat.add_assoc]
      exact ih (hemit data h)
  | stopped hfailure rest =>
      obtain ⟨hlink, hfailure'⟩ := hstops.stream _ hfailure
      exact h.of_failure hfailure hlink hfailure' _ _

/-! ## Bodies -/

/-- How a body puts its fragments. -/
def emitter (size : Option Nat) : Pen σ → Bytes → Pen σ :=
  match size with
  | some _ => putFragment
  | none => putChunk

/-- What a body leaves behind that was streamed through a pen, where `fragments` were handed over
as long as the pen had not failed. -/
structure Fulfils (C : Channel offer) (l : Link σ) (text : Bytes) (body : Body)
    (fragments : List Bytes) (pen : Pen σ) : Prop where
  keeps : Link.Keeps l pen.link
  on : pen.failure = none → body.Honest ∧ fragments = body.emission.fragments ∧
    C.On pen.link (text ++ Request.framedBody body)
  failed {failure : TransportFailure} : pen.failure = some failure →
    C.broken pen.link.wire failure (text ++ body.framed fragments) ∨
      body.Fault failure ∧ ∃ sent, sent <+: body.framed fragments ∧ C.On pen.link (text ++ sent)

/-- A pen that was failed by its body. -/
theorem Stands.fulfils_fail {body : Body} {fragments : List Bytes} {text' : Bytes}
    (h : Stands C l pen text' k) (own : TransportFailure)
    (hbroken : ∀ {failure}, pen.failure = some failure →
      C.broken pen.link.wire failure (text ++ body.framed fragments))
    (hfault : pen.failure = none → body.Fault own ∧
      ∃ sent, sent <+: body.framed fragments ∧ C.On pen.link (text ++ sent)) :
    Fulfils C l text body fragments (pen.fail own) := by
  cases hfailure : pen.failure with
  | none =>
      have hfail := failure_fail own hfailure
      refine ⟨h.keeps, ?_, ?_⟩
      · intro hnone
        rw [hfail] at hnone
        cases hnone
      · intro failure hsome
        rw [hfail] at hsome
        cases hsome
        exact .inr (hfault hfailure)
  | some failure =>
      rw [fail_of_failure hfailure]
      refine ⟨h.keeps, ?_, fun hsome => .inl (hbroken hsome)⟩
      intro hnone
      rw [hfailure] at hnone
      cases hnone

theorem Stands.putSized (h : Stands C l pen text 0) (hpen : pen.failure = none) {declared : Nat}
    {emission : Emission} {fragments : List Bytes}
    (hfragments : Hands Pen.putFragment emission pen fragments) :
    Fulfils C l text ⟨some declared, emission⟩ fragments
      (pen.putBody ⟨some declared, emission⟩) := by
  have hstands :=
    h.stream id List.length stops_putFragment (fun data hpen => hpen.putFragment data) hfragments
  have hok := hfragments.of_ok stops_putFragment
  rw [List.map_id, foldr_length, Nat.zero_add] at hstands
  unfold Pen.putBody
  rw [if_neg (by simp [hpen])]
  dsimp only
  cases hs : Pen.stream Pen.putFragment emission pen with
  | mk outcome pen' =>
      rw [hs] at hstands hok
      have hsent (hnone : pen'.failure = none) : ∃ sent,
          sent <+: (Body.mk (some declared) emission).framed fragments ∧
            C.On pen'.link (text ++ sent) :=
        ⟨_, List.prefix_rfl, (hstands.on hnone).1⟩
      -- The body's own verdict comes first, and then its length.
      cases outcome with
      | error failure =>
          exact hstands.fulfils_fail failure hstands.broken
            fun hnone => ⟨.own (hok hnone).2.symm, hsent hnone⟩
      | ok value =>
          dsimp only
          by_cases hdeclared : pen'.streamed = declared
          · rw [if_pos hdeclared]
            refine ⟨hstands.keeps, ?_, fun hsome => .inl (hstands.broken hsome)⟩
            intro hnone
            obtain ⟨hon, hstreamed⟩ := hstands.on hnone
            obtain ⟨rfl, hverdict⟩ := hok hnone
            have hlength := hstreamed.symm.trans hdeclared
            exact ⟨(Body.honest_iff_length hverdict.symm rfl).mpr hlength, rfl, hon⟩
          · rw [if_neg hdeclared]
            refine hstands.fulfils_fail _ hstands.broken fun hnone => ⟨?_, hsent hnone⟩
            obtain ⟨-, hstreamed⟩ := hstands.on hnone
            obtain ⟨rfl, hverdict⟩ := hok hnone
            rw [hstreamed]
            exact .length rfl hverdict.symm fun heq => hdeclared (hstreamed.trans heq)

theorem Stands.putChunked (h : Stands C l pen text 0) (hpen : pen.failure = none)
    {emission : Emission} {fragments : List Bytes}
    (hfragments : Hands Pen.putChunk emission pen fragments) :
    Fulfils C l text ⟨none, emission⟩ fragments (pen.putBody ⟨none, emission⟩) := by
  have hstands := h.stream (fun data => (chunkPieces data).flatten) (fun _ => 0)
    stops_putChunk (fun data hpen => hpen.putAll (chunkPieces data)) hfragments
  have hok := hfragments.of_ok stops_putChunk
  rw [flatten_map_chunkPieces] at hstands
  have hlast := hstands.put lastChunk
  rw [List.append_assoc] at hlast
  unfold Pen.putBody
  rw [if_neg (by simp [hpen])]
  dsimp only
  cases hs : Pen.stream Pen.putChunk emission pen with
  | mk outcome pen' =>
      rw [hs] at hstands hok hlast
      cases outcome with
      | error failure =>
          refine hstands.fulfils_fail failure ?_ ?_
          · intro failure' hsome
            rw [put_of_failure hsome] at hlast
            exact hlast.broken hsome
          · intro hnone
            refine ⟨.own (hok hnone).2.symm, _, ?_, (hstands.on hnone).1⟩
            exact List.prefix_append ..
      | ok value =>
          refine ⟨hlast.keeps, ?_, fun hsome => .inl (hlast.broken hsome)⟩
          intro hnone
          -- A pen that has not failed at the end had not failed before.
          have hbefore : pen'.failure = none := by
            cases hfailure : pen'.failure with
            | none => rfl
            | some failure =>
                dsimp only at hnone
                rw [put_of_failure hfailure, hfailure] at hnone
                cases hnone
          obtain ⟨rfl, hverdict⟩ := hok hbefore
          exact ⟨Body.honest_of_unsized hverdict.symm rfl, rfl, (hlast.on hnone).1⟩

/-- **A body that keeps its word is handed over as it stands on the wire**, and any other
fails the pen. -/
theorem Stands.putBody (h : Stands C l pen text 0) (body : Body) {fragments : List Bytes}
    (hfragments : Hands (emitter body.size) body.emission pen fragments) :
    Fulfils C l text body fragments (pen.putBody body) := by
  cases hfailure : pen.failure with
  | some failure =>
      rw [putBody_of_failure hfailure]
      refine ⟨h.keeps, ?_, fun hsome => .inl (C.broken_append _ (h.broken hsome))⟩
      intro hnone
      rw [hfailure] at hnone
      cases hnone
  | none =>
      obtain ⟨size, emission⟩ := body
      cases size with
      | some declared => exact h.putSized hfailure hfragments
      | none => exact h.putChunked hfailure hfragments

end Pen

/-! ## Requests -/

namespace Request

variable {σ : Type} [SecureTransport σ] {offer : σ → Bytes → Except TransportFailure Nat × σ}
  {C : Channel offer} {l : Link σ} {text : Bytes}

/-- The pen when head and body are written. -/
def streamed (r : Request) (link : Link σ) : Pen σ :=
  (r.body.map ((Pen.on link).putAll r.headPieces).putBody).getD
    ((Pen.on link).putAll r.headPieces)

/-- The text of a request whose body hands over some fragments. -/
def textOf (r : Request) (fragments : List Bytes) : Bytes :=
  r.headPieces.flatten ++ (r.body.map (·.framed fragments)).getD []

/-- What the body of a request hands over when the request is written, as long as nothing has
failed. -/
def Hands (r : Request) (l : Link σ) (fragments : List Bytes) : Prop :=
  ∀ body, r.body = some body →
    Pen.Hands (Pen.emitter body.size) body.emission ((Pen.on l).putAll r.headPieces) fragments

/-- The fragments of a body whose every write succeeds. -/
def fragments (r : Request) : List Bytes := (r.body.map (·.emission.fragments)).getD []

theorem hands_fragments (r : Request) (l : Link σ) : r.Hands l r.fragments := by
  intro body hbody
  unfold fragments
  rw [hbody]
  exact Pen.hands_fragments _ _ _

theorem textOf_fragments (r : Request) : r.textOf r.fragments = r.serialized := by
  unfold textOf fragments serialized
  cases r.body with
  | none => rfl
  | some body => rfl

/-- What is wrong with the body of a request. -/
def Fault (r : Request) (failure : TransportFailure) : Prop :=
  ∃ body, r.body = some body ∧ body.Fault failure

theorem Fault.not_honest {r : Request} {failure : TransportFailure} (h : r.Fault failure) :
    ¬ r.Honest := by
  obtain ⟨body, hbody, hfault⟩ := h
  exact fun honest => hfault.not_honest (honest body hbody)

/-- What a request leaves behind whose head and body were written. -/
theorem streamed_stands (r : Request) (h : C.On l text) {fragments : List Bytes}
    (hfragments : r.Hands l fragments) :
    Link.Keeps l (r.streamed l).link ∧
    ((r.streamed l).failure = none → r.Honest ∧ r.textOf fragments = r.serialized ∧
      C.On (r.streamed l).link (text ++ r.serialized)) ∧
    ∀ {failure}, (r.streamed l).failure = some failure →
      C.broken (r.streamed l).link.wire failure (text ++ r.textOf fragments) ∨
      r.Fault failure ∧
        ∃ sent, sent <+: r.textOf fragments ∧ C.On (r.streamed l).link (text ++ sent) := by
  have hhead := (Pen.stands_on h).putAll r.headPieces
  unfold streamed serialized textOf
  rw [← List.append_assoc, ← List.append_assoc]
  cases hbody : r.body with
  | none =>
      simp only [Option.map_none, Option.getD_none, List.append_nil]
      refine ⟨hhead.keeps, ?_, fun hsome => .inl (hhead.broken hsome)⟩
      intro hnone
      refine ⟨?_, trivial, (hhead.on hnone).1⟩
      intro body hsome
      rw [hbody] at hsome
      cases hsome
  | some body =>
      have hput := hhead.putBody body (hfragments body hbody)
      simp only [Option.map_some, Option.getD_some]
      refine ⟨hput.keeps, ?_, ?_⟩
      · intro hnone
        obtain ⟨honest, rfl, hon⟩ := hput.on hnone
        exact ⟨(honest_iff_body hbody).mpr honest, rfl, hon⟩
      · intro failure hsome
        refine (hput.failed hsome).imp id ?_
        rintro ⟨hfault, sent, hsent, hon⟩
        refine ⟨⟨body, hbody, hfault⟩, r.headPieces.flatten ++ sent, ?_, ?_⟩
        · exact (List.prefix_append_right_inj _).mpr hsent
        · rwa [← List.append_assoc]

theorem write_of_idle (r : Request) (hidle : l.phase = .idle) :
    r.write l = match (r.streamed l).flush.failure with
      | some failure =>
        (.error (.network failure), ((r.streamed l).flush.link.enter .poisoned).log .debug
          [ascii "request: ", r.method.token, ascii " ", r.path, ascii " failed: ",
            failure.message])
      | none =>
        (.ok (), (r.streamed l).flush.link.log .trace
          [ascii "request: ", r.method.token, ascii " ", r.path, ascii " written"]) := by
  unfold write
  rw [Connection.ensureReusable_of_idle hidle]
  rfl

/-- How a request ends on an idle link: it was handed over as a whole and flushed, or it
failed, and then the channel was broken on the way or the body has not kept its word. -/
theorem write_outcome (r : Request) (hidle : l.phase = .idle) (h : C.On l text) :
    (∃ l', r.write l = (.ok (), l') ∧ r.Honest ∧ C.On l' (text ++ r.serialized) ∧ l'.Flushed ∧
      Link.Keeps l l') ∨
    ∃ failure l', r.write l = (.error (.network failure), l') ∧ l'.phase = .poisoned ∧
      (C.broken l'.wire failure (text ++ r.serialized) ∨ ¬ r.Honest) := by
  obtain ⟨hkeeps, hon, hfailed⟩ := r.streamed_stands h (r.hands_fragments l)
  rw [textOf_fragments] at hfailed
  rw [write_of_idle r hidle]
  cases hfailure : (r.streamed l).failure with
  | some failure =>
      rw [Pen.flush_of_failure hfailure, hfailure]
      exact .inr ⟨failure, _, rfl, rfl, (hfailed hfailure).imp id fun h => h.1.not_honest⟩
  | none =>
      obtain ⟨honest, -, hon⟩ := hon hfailure
      cases hon.flush with
      | succeeds value link call holds =>
          rw [Pen.flush_of_ok hfailure call]
          dsimp only
          rw [hfailure]
          exact .inl ⟨_, rfl, honest, holds.1.log _ _, holds.2.1,
            hkeeps.phase_eq ▸ holds.2.2.phase_eq, hkeeps.receive_eq ▸ holds.2.2.receive_eq⟩
      | fails failure link call holds =>
          rw [Pen.flush_of_error hfailure call]
          exact .inr ⟨failure, _, rfl, rfl, .inl holds.1⟩

/-! ## Requests on a sink -/

variable {S : Sink offer}

/-- **A request with an honest body is written on an idle link**, as a whole and to the last
byte. -/
theorem write_ok {r : Request} (hidle : l.phase = .idle) (h : S.On l text) (honest : r.Honest) :
    ∃ l', r.write l = (.ok (), l') ∧ S.On l' (text ++ r.serialized) ∧ l'.Flushed ∧
      Link.Keeps l l' := by
  rcases r.write_outcome hidle (Sink.on_iff.mp h) with
    ⟨l', hwrite, -, hon, hflushed, hkeeps⟩ | ⟨failure, l', -, -, hbroken | hdishonest⟩
  · exact ⟨l', hwrite, Sink.on_iff.mpr hon, hflushed, hkeeps⟩
  · exact absurd hbroken id
  · exact absurd honest hdishonest

/-- Where everything is accepted, only the body can fail a request. -/
theorem write_ok_iff {r : Request} (hidle : l.phase = .idle) (h : S.On l text) :
    (r.write l).1 = .ok () ↔ r.Honest := by
  constructor
  · intro hok
    rcases r.write_outcome hidle (Sink.on_iff.mp h) with
      ⟨l', -, honest, -⟩ | ⟨failure, l', hwrite, -⟩
    · exact honest
    · rw [hwrite] at hok
      cases hok
  · intro honest
    obtain ⟨l', hwrite, -⟩ := write_ok hidle h honest
    rw [hwrite]

end Request

end HttpExchange
