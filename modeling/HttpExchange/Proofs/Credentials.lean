import HttpExchange.Proofs.Base64Standard
import HttpExchange.Proofs.FramingLines

/-!
# Credentials on the wire

Credentials are sent in a header line of their own, behind all others but the one that frames the
body. The line is written in pieces, as user, colon and password fill group after group, and
together the pieces are the standard encoding of the three as one text
(`Request.credentials_encoded`).
-/

namespace HttpExchange

/-- How texts go through the two buffers that they are staged in. The input buffer has room for
each byte of them as its turn comes, and the output buffer for each group with the NUL behind it. -/
structure Base64.FitsBuffers (texts : List Bytes) : Prop where
  input : ∀ fed b rest, texts.flatten = fed ++ b :: rest → (Staging.empty.feed fed).held.length < 48
  output : ∀ piece ∈ staged texts, piece.length + 1 ≤ 65

theorem Base64.fitsBuffers (texts : List Bytes) : FitsBuffers texts where
  input fed _ _ _ := (Staging.fed_empty.feed fed).short
  output := (fed_staged texts).length_finish

/-- A user and a password as one text. -/
def Credentials.text (c : Credentials) : Bytes := c.user ++ Byte.colon :: c.password

namespace Request

variable {σ : Type} [SecureTransport σ] {offer : σ → Bytes → Except TransportFailure Nat × σ}
  {S : Sink offer} {l : Link σ} {r : Request} {text : Bytes} {c : Credentials}

def startLine (r : Request) : Bytes :=
  r.method.token ++ Byte.sp :: (r.target ++ Byte.sp :: ascii "HTTP/1.1")

theorem line_credentialHeader (c : Credentials) :
    (credentialHeader c).line = ascii "Authorization: Basic " ++ Base64.encode c.text := by
  have hmark : ascii "Authorization" ++ ascii ": " ++ ascii "Basic "
      = ascii "Authorization: Basic " := by decide
  rw [← hmark, List.append_assoc]
  rfl

/-- The line with the credentials comes behind all others but the one that frames the body. -/
theorem fieldLines_of_credentials (hc : r.credentials = some c) :
    r.fieldLines = { r with credentials := none, body := none }.fieldLines
      ++ (ascii "Authorization: Basic " ++ Base64.encode c.text) :: r.framingLine.toList := by
  rw [← line_credentialHeader]
  unfold fieldLines sentHeaders plainHeaders framingLine
  cases r.body with
  | none => simp [hc]
  | some body => simp [hc]

/-- **Credentials are encoded as one text.** On a wire that accepts everything, a request with
credentials is written with a line for them, whatever comes of its body. What stands in the line is
the standard encoding of the user, a colon and the password, which reads back as these, and on the
way there no buffer is too short, wherever a group ends. -/
theorem credentials_encoded (hidle : l.phase = .idle) (hon : S.On l text)
    (hc : r.credentials = some c) :
    ∃ encoded sent,
      S.On (r.write l).2 (text ++ (r.startLine ++ Bytes.crlf ++
        (Bytes.unlines ({ r with credentials := none, body := none }.fieldLines
          ++ (ascii "Authorization: Basic " ++ encoded) :: r.framingLine.toList)
        ++ (Bytes.crlf ++ sent)))) ∧
      Base64.IsEncoding (c.user ++ Byte.colon :: c.password) encoded ∧
      Base64.decode? encoded = some (c.user ++ Byte.colon :: c.password) ∧
      Base64.FitsBuffers [c.user, [Byte.colon], c.password] := by
  obtain ⟨sent, hsent⟩ := write_on (r := r) hidle hon
  refine ⟨Base64.encode c.text, sent, ?_, Base64.isEncoding_encode _, Base64.decode?_encode _,
    Base64.fitsBuffers _⟩
  rw [flatten_headPieces_lines, fieldLines_of_credentials hc] at hsent
  simpa only [startLine, List.append_assoc] using hsent

/-- A user that fills a group but for one byte, so that the colon ends it, and a password with
colons and a byte above the letters. -/
def longCredentials : Credentials :=
  ⟨List.replicate 47 117, ascii "p@ss:word" ++ [255, 0]⟩

def longCredentialsRequest : Request :=
  { Request.make .put (ascii "/") with
    host := some (ascii "a.test")
    credentials := some longCredentials
    body := some (.ofBytes (ascii "hi")) }

theorem credentials_encoded_long :
    ∃ encoded sent,
      Script.sink.On (longCredentialsRequest.write ⟨.plain, .empty, Script.empty, []⟩).2
        (ascii "PUT / HTTP/1.1" ++ Bytes.crlf ++ (Bytes.unlines [ascii "Host: a.test",
          ascii "Authorization: Basic " ++ encoded, ascii "Content-Length: 2"]
          ++ (Bytes.crlf ++ sent))) ∧
      Base64.IsEncoding longCredentials.text encoded ∧
      Base64.decode? encoded = some longCredentials.text ∧
      Base64.FitsBuffers [longCredentials.user, [Byte.colon], longCredentials.password] := by
  have hon : Script.sink.On ⟨.plain, .empty, Script.empty, []⟩ [] :=
    ⟨rfl, ⟨rfl, rfl, by decide⟩, rfl, rfl⟩
  have hstart : longCredentialsRequest.startLine = ascii "PUT / HTTP/1.1" := by decide +kernel
  have hlines : { longCredentialsRequest with credentials := none, body := none }.fieldLines
      = [ascii "Host: a.test"] := by decide +kernel
  have hframing : longCredentialsRequest.framingLine.toList = [ascii "Content-Length: 2"] := by
    decide +kernel
  obtain ⟨encoded, sent, hsent, hencoded⟩ := credentials_encoded rfl hon
    (show longCredentialsRequest.credentials = some longCredentials from rfl)
  rw [hstart, hlines, hframing] at hsent
  exact ⟨encoded, sent, hsent, hencoded⟩

end Request

end HttpExchange
