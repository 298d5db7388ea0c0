import HttpExchange.Proofs.CommandWords
import HttpExchange.Proofs.SingleUse
import HttpExchange.Proofs.Transcripts
import HttpExchange.Proofs.UrlRequests

/-!
# Runs of the program

A run goes through stages: the words are read, a connection is set up, the request is sent, the
body is read, and wherever one of these fails the complaint is written instead. `Stage.step`
takes it from one stage to the next, and what a run comes to is settled from its first stage on
(`Stage.outcome_step`); every stage is nearer to the end than the one before, so a run reaches it
(`Stage.iterate_step`).

What it comes to is said without the stages: `Lawful` ties exit code and standard output to what
was heard of the peer, whoever answers lookups and dials, and whatever the transport does.

* `Settled`: exit code and output, given what was heard from the request on.
* `run_lawful`: every run reaches its end and is lawful.
-/

namespace HttpExchange

/-- The codes of success and redirection are next to each other. -/
theorem Status.below_400_iff (s : Status) : (s.isSuccess || s.isRedirection) = true ↔
    200 ≤ s.code ∧ s.code < 400 := by
  simp only [isSuccess, isRedirection, Bool.or_eq_true, Bool.and_eq_true, decide_eq_true_eq,
    UInt16.le_iff_toNat_le, UInt16.lt_iff_toNat_lt, UInt16.reduceToNat]
  omega

namespace CommandLine

variable {σ : Type}

/-! ## Outcomes -/

namespace Outcome

theorem exitCode_eq_zero_iff {o : Outcome σ} : o.exitCode = 0 ↔ o.succeeded = true := by
  unfold exitCode
  cases o.succeeded with
  | false => decide
  | true => decide

end Outcome

variable [SecureTransport σ]

/-! ## Stages -/

namespace Stage

/-- What a run comes to from a stage on. -/
def outcome (program : Bytes) (network : Network σ) : Stage σ → Outcome σ
  | start words | parsing words => run program words network
  | connecting c => runCommand c network
  | sending c url base l => base.conclude (exchange c url l)
  | reading base r l => base.conclude (finish l r)
  | failing base text => { base with errorOutput := text }
  | done o => o

/-- How many steps it takes at most. -/
def distance : Stage σ → Nat
  | start _ => 5
  | parsing _ => 4
  | connecting _ => 3
  | sending .. => 2
  | reading .. | failing .. => 1
  | done _ => 0

variable {program : Bytes} {network : Network σ} {words : List Bytes}

theorem run_of_few (h : words.length < 2) :
    run program words network = { Outcome.blank with errorOutput := usage program } := by
  match words with
  | [] => rfl
  | [_] => rfl
  | _ :: _ :: _ =>
      rw [List.length_cons, List.length_cons] at h
      omega

theorem outcome_afterReach (program : Bytes) (network : Network σ) (c : Command) :
    (afterReach c (Client.reach ⟨c.secure?, .empty⟩ network c.url)).outcome program network
      = runCommand c network := by
  unfold runCommand
  generalize Client.reach ⟨c.secure?, .empty⟩ network c.url = result
  obtain ⟨reached, connection, client, wire, lookups, dials, journal⟩ := result
  cases reached with
  | error failure => rfl
  | ok url =>
      cases connection with
      | error failure => rfl
      | ok connection =>
          cases wire with
          | none => rfl
          | some wire => rfl

/-- **A step changes nothing of what a run comes to.** -/
theorem outcome_step (s : Stage σ) :
    (s.step program network).outcome program network = s.outcome program network := by
  cases s with
  | start words =>
      simp only [step]
      split
      next hfew => exact (run_of_few hfew).symm
      next => rfl
  | parsing words =>
      simp only [step, outcome, run]
      cases parse words with
      | error fault => rfl
      | ok c => rfl
  | connecting c => exact outcome_afterReach program network c
  | sending c url base l =>
      simp only [step, outcome, exchange]
      rcases submit c url l with ⟨failure | r, l'⟩
      · rfl
      · rfl
  | reading base r l => rfl
  | failing base text => rfl
  | done o => rfl

omit [SecureTransport σ] in
theorem distance_afterReach (c : Command) (result : Except Failure Url × Client.Setup σ) :
    (afterReach c result).distance ≤ 2 := by
  unfold afterReach
  split
  · exact Nat.le_add_left 1 1
  · split
    · exact Nat.le_refl 2
    · exact Nat.le_add_left 1 1
    · exact Nat.zero_le 2

theorem distance_step (s : Stage σ) : (s.step program network).distance ≤ s.distance - 1 := by
  cases s with
  | start words =>
      simp only [step]
      split
      · exact Nat.zero_le 4
      · exact Nat.le_refl 4
  | parsing words =>
      simp only [step]
      cases parse words with
      | error fault => exact Nat.le_add_left 1 2
      | ok c => exact Nat.le_refl 3
  | connecting c => exact distance_afterReach c _
  | sending c url base l =>
      simp only [step]
      rcases submit c url l with ⟨failure | r, l'⟩
      · exact Nat.le_refl 1
      · exact Nat.le_refl 1
  | reading base r l => exact Nat.le_refl 0
  | failing base text => exact Nat.le_refl 0
  | done o => exact Nat.le_refl 0

/-- **A run reaches its end** in as many steps as its stage is away from it. -/
theorem iterate_step {k : Nat} (s : Stage σ) (hk : s.distance ≤ k) :
    (step program network)^[k] s = .done (s.outcome program network) := by
  induction k generalizing s with
  | zero =>
      cases s with
      | done o => rfl
      | _ => nomatch hk
  | succ k ih =>
      have hcloser : (s.step program network).distance ≤ s.distance - 1 := distance_step s
      rw [Function.iterate_succ_apply, ih _ (by omega), outcome_step]

end Stage

/-! ## Exchanges -/

/-- The request of a command for a URL. -/
def Command.requestFor (c : Command) (url : Url) : Request :=
  match c.options.path with
  | none => (url.request c.method).applyAll c.settings
  | some path =>
    { ({ Request.make c.method path with host := some url.host } : Request).applyAll c.settings with
      basePath := some url.path }

theorem submit_eq (c : Command) (url : Url) (l : Link σ) :
    submit c url l = l.send (c.requestFor url) c.options.receiveCapacity := by
  unfold submit
  unfold Command.requestFor
  cases c.options.path with
  | none => rfl
  | some path => rfl

theorem Command.method_requestFor (c : Command) (url : Url) :
    (c.requestFor url).method = c.method := by
  unfold requestFor
  cases c.options.path with
  | none => exact Request.method_applyAll (url.request c.method) c.settings
  | some path => exact Request.method_applyAll (.mk c.method path (some url.host) _ _ _ _ _) c.settings

/-- The words make the command `c`, a connection is set up for it, its request goes out, and a
response is read: `l` is the link behind the request, and `l'` the one behind the head of the
response. -/
inductive Answered (words : List Bytes) (network : Network σ) :
    Command → Link σ → Response → Link σ → Prop
  | intro {c : Command} {url : Url} {setup : Client.Setup σ} {connection : Connection} {wire : σ}
      {l l' : Link σ} {r : Response} (parsed : parse words = .ok c)
      (reached : Client.reach ⟨c.secure?, .empty⟩ network c.url = (.ok url, setup))
      (connected : setup.connection = .ok connection) (dialled : setup.wire = some wire)
      (sent : (c.requestFor url).write (linkOf c setup.client.scratch connection wire)
        = (.ok (), l))
      (read : Response.read l c.method c.options.receiveCapacity = (.ok r, l')) :
      Answered words network c l r l'

section

variable {words : List Bytes} {network : Network σ} {c : Command} {l l' : Link σ} {r : Response}

theorem run_of_answered (program : Bytes) (h : Answered words network c l r l') :
    ∃ base, run program words network = Outcome.conclude base (finish l' r) := by
  cases h with
  | @intro url setup connection wire _ _ _ parsed reached connected dialled sent read =>
      have hsubmit : submit c url (linkOf c setup.client.scratch connection wire)
          = (.ok r, l') := by
        rw [submit_eq, Link.send, sent, c.method_requestFor]
        exact read
      refine ⟨.reached c setup, ?_⟩
      have hrun : run program words network = runCommand c network := by rw [run, parsed]
      have hexchange : exchange c url (linkOf c setup.client.scratch connection wire)
          = finish l' r := by rw [exchange, hsubmit]
      rw [hrun, ← Stage.outcome_afterReach program, reached]
      simp only [Stage.afterReach, connected, dialled, Stage.outcome, hexchange]

theorem Answered.read_eq (h : Answered words network c l r l') :
    Response.read l c.method c.options.receiveCapacity = (.ok r, l') := by
  cases h with
  | intro _ _ _ _ _ read => exact read

theorem run_of_unanswered (program : Bytes) (h : ∀ c l r l', ¬ Answered words network c l r l') :
    (run program words network).succeeded = false ∧
      (run program words network).standardOutput = [] := by
  cases hparse : parse words with
  | error fault =>
      rw [run, hparse]
      exact ⟨rfl, rfl⟩
  | ok c =>
      have hrun : run program words network = runCommand c network := by rw [run, hparse]
      rw [hrun, ← Stage.outcome_afterReach program]
      have hexits := Client.exits_reach ⟨c.secure?, .empty⟩ network c.url
      rcases hreach : Client.reach ⟨c.secure?, .empty⟩ network c.url with ⟨failure | url, setup⟩
      · exact ⟨rfl, rfl⟩
      · rw [hreach] at hexits
        -- A URL is only reached with a connection on a wire, so what is left is the exchange.
        obtain ⟨connection, wire, hconnection, hwire, -⟩ := hexits.fresh
        simp only [Stage.afterReach, hconnection, hwire, Stage.outcome, exchange, submit_eq,
          Link.send, c.method_requestFor]
        rcases hsent : (c.requestFor url).write (linkOf c setup.client.scratch connection wire)
          with ⟨failure | ⟨⟩, l⟩
        · exact ⟨rfl, rfl⟩
        · dsimp only
          rcases hread : Response.read l c.method c.options.receiveCapacity with ⟨failure | r, l'⟩
          · exact ⟨rfl, rfl⟩
          · exact absurd (.intro hparse hreach hconnection hwire hsent hread) (h c l r l')

/-- What is shown of a response is its payload, and a run succeeds with it if it is whole. -/
theorem finish_heard {method : Method} {capacity : Nat}
    (h : Response.read l method capacity = (.ok r, l')) :
    r.method = method ∧ ∃ text heard last, l.Hears text heard (finish l' r).link ∧
      r.Carries text heard (finish l' r).standardOutput last ∧
      ((finish l' r).succeeded = true ↔
        last = .ok [] ∧ 200 ≤ r.status.code ∧ r.status.code < 400) := by
  obtain ⟨hmethod, reader, pieces, last, y, text, heard, hbody, hall, hears, hcarries⟩ :=
    Response.readAll_heard h (n := readSize) (by decide)
  refine ⟨hmethod, ?_⟩
  rcases hcarries.last_cases with rfl | ⟨failure, rfl⟩
  · have hfinish : finish l' r = ⟨y.link, r.status.isSuccess || r.status.isRedirection,
        pieces.flatten, headText r⟩ := by
      rw [finish, hbody]
      simp only [hall]
      rfl
    rw [hfinish]
    refine ⟨text, heard, .ok [], hears, hcarries, ?_⟩
    rw [eq_self, true_and]
    exact r.status.below_400_iff
  · have hfinish : finish l' r = ⟨y.link, false, pieces.flatten,
        headText r ++ complaint failure.message⟩ := by
      rw [finish, hbody]
      simp only [hall]
      rfl
    rw [hfinish]
    exact ⟨text, heard, .error failure, hears, hcarries, by simp⟩

end

/-! ## The law of runs -/

/-- Exit code and standard output as they are settled by what was heard from the request on: the
output is the payload of that text, whole or as far as it goes, and a run succeeds where the
payload is whole and the status is one of success or redirection. -/
structure Settled (l : Link σ) (r : Response) (o : Outcome σ) (text : Bytes) (heard : Ending)
    (last : Except Failure Bytes) (l' : Link σ) : Prop where
  hears : l.Hears text heard l'
  wire_eq : o.wire = some l'.wire
  carries : r.Carries text heard o.standardOutput last
  /-- Where the peer sends a stream that ends, this is the payload of the whole stream. -/
  carries_stream {receive : σ → Nat → Except TransportFailure Bytes × σ} {ending : Ending}
    {F : Feed receive ending} {stream : Bytes} : F.On l stream → ending ≠ .silent →
      r.Carries stream ending o.standardOutput last
  exit_zero : o.exitCode = 0 ↔ last = .ok [] ∧ 200 ≤ r.status.code ∧ r.status.code < 400

/-- What is true of the outcome of a run. -/
structure Lawful (words : List Bytes) (network : Network σ) (o : Outcome σ) : Prop where
  exit_le : o.exitCode = 0 ∨ o.exitCode = 1
  unanswered : (∀ c l r l', ¬ Answered words network c l r l') →
    o.exitCode = 1 ∧ o.standardOutput = []
  answered {c : Command} {l l' : Link σ} {r : Response} : Answered words network c l r l' →
    r.method = c.method ∧ ∃ text heard last l'', Settled l r o text heard last l''
  rejected : Rejected (words.map Bytes.untilNul) →
    o.lookups = [] ∧ o.dials = [] ∧ o.wire = none
  /-- All other words make a command. -/
  command_iff : (∃ c, parse words = .ok c) ↔ ¬ Rejected (words.map Bytes.untilNul)

/-- **Every run reaches its end, and what it comes to is lawful**, whatever the words, whoever
answers lookups and dials, and whatever the transport does. -/
theorem run_lawful (program : Bytes) (words : List Bytes) (network : Network σ) :
    (Stage.step program network)^[5] (.start words) = .done (run program words network) ∧
      Lawful words network (run program words network) := by
  refine ⟨Stage.iterate_step (.start words) (Nat.le_refl 5), ?_, ?_, ?_, ?_, ?_⟩
  · unfold Outcome.exitCode
    split
    · exact .inl rfl
    · exact .inr rfl
  · intro hnone
    obtain ⟨hfails, hsilent⟩ := run_of_unanswered program hnone
    refine ⟨?_, hsilent⟩
    rw [Outcome.exitCode, hfails]
    rfl
  · intro c l l' r hanswered
    obtain ⟨base, hrun⟩ := run_of_answered program hanswered
    rw [hrun]
    obtain ⟨hmethod, text, heard, last, hears, hcarries, hsucceeds⟩ :=
      finish_heard hanswered.read_eq
    refine ⟨hmethod, text, heard, last, (finish l' r).link, hears, rfl, hcarries, ?_, ?_⟩
    · intro receive ending F stream hon hending
      -- What was not heard of the stream does not belong to the payload.
      obtain ⟨later, rfl, hlater⟩ := hears.on_feed hon hending
      exact hcarries.extend hlater hending
    · rw [Outcome.exitCode_eq_zero_iff]
      exact hsucceeds
  · intro hrejected
    obtain ⟨fault, hparse⟩ := rejected_iff.mp hrejected
    rw [run, hparse]
    exact ⟨rfl, rfl, rfl⟩
  · rw [rejected_iff]
    cases parse words with
    | error fault => simp
    | ok c => simp

/-- A body that is cut short is shown as far as it goes, and the run fails. -/
example :
    let words := [ascii "GET", ascii "http://10.0.0.1/x", ascii "--buffered"]
    let network (heard : Bytes) : Network Script :=
      ⟨fun _ => .ok (.quad 10 0 0 1), fun _ _ => .ok { Script.empty with inbound := [heard] }⟩
    let head := ascii "HTTP/1.1 200 OK\r\nContent-Length: 5\r\n\r\n"
    let whole := run [] words (network (head ++ ascii "hello"))
    let short := run [] words (network (head ++ ascii "hel"))
    whole.exitCode = 0 ∧ whole.standardOutput = ascii "hello" ∧
      short.exitCode = 1 ∧ short.standardOutput = ascii "hel" := by
  decide +kernel

end CommandLine

end HttpExchange
