import HttpExchange.Client.Handle
import HttpExchange.Client.Resource
import HttpExchange.Proofs.HeadReading
import HttpExchange.Proofs.ScriptFeed

/-!
# Requests that go out once

A handle and the builder of a resource hold a request that is still to be sent. Settings change
that request and nothing else; the first call that sends hands it over, whatever comes of it, and
leaves nothing to be sent; and from then on settings change nothing and to send is refused with
the connection untouched. Both are a `SingleUse`, and what is said of one is said of the other.

* `SingleUse.run_unsent`, `SingleUse.run_spent`: runs before and after the first call that sends.
* `Resource.place_applyAll`: a builder fills in base and host when it is made, a resource when it
  sends, and it comes to the same.
* `requests_sent_once`: what follows for both.
-/

namespace HttpExchange

/-- What holds a request until it is sent. -/
class SingleUse (α : Type) where
  pending : α → Option Request
  /-- The request as it goes out. -/
  placed : α → Request → Request
  apply : α → List Request.Setting → α
  send {σ : Type} [SecureTransport σ] : α → Link σ → Nat → Except Failure Response × α × Link σ
  pending_apply (a : α) (settings : List Request.Setting) :
    pending (apply a settings) = (pending a).map fun r => r.applyAll settings
  placed_apply (a : α) (settings : List Request.Setting) : placed (apply a settings) = placed a
  apply_spent {a : α} (settings : List Request.Setting) : pending a = none → apply a settings = a
  send_spent {σ : Type} [SecureTransport σ] {a : α} (l : Link σ) (capacity : Nat) :
    pending a = none → send a l capacity = (.error .alreadySent, a, l)
  send_pending {σ : Type} [SecureTransport σ] {a : α} {r : Request} (l : Link σ) (capacity : Nat) :
    pending a = some r → ∃ a', pending a' = none ∧
      send a l capacity
        = ((l.send (placed a r) capacity).1, a', (l.send (placed a r) capacity).2)

instance : SingleUse Handle where
  pending := Handle.pending
  placed _ := id
  apply := Handle.apply
  send := Handle.send
  pending_apply _ _ := rfl
  placed_apply _ _ := rfl
  apply_spent {h} settings hspent := by
    obtain ⟨url, pending⟩ := h
    obtain rfl : pending = none := hspent
    rfl
  send_spent l capacity hspent := by rw [Handle.send, hspent]
  send_pending {σ _ h r} l capacity hpending := by
    refine ⟨{ h with pending := none }, rfl, ?_⟩
    rw [Handle.send, hpending]
    rfl

instance : SingleUse Builder where
  pending := Builder.pending
  placed b r := { r with basePath := some b.basePath }
  apply := Builder.apply
  send := Builder.send
  pending_apply _ _ := rfl
  placed_apply _ _ := rfl
  apply_spent {b} settings hspent := by
    obtain ⟨basePath, pending⟩ := b
    obtain rfl : pending = none := hspent
    rfl
  send_spent l capacity hspent := by rw [Builder.send, hspent]
  send_pending {σ _ b r} l capacity hpending := by
    refine ⟨{ b with pending := none }, rfl, ?_⟩
    rw [Builder.send, hpending]

/-! ## Runs -/

namespace SingleUse

/-- What is done with the holder of a request; and what is done elsewhere with the connection that
it is sent on, which others may use. -/
inductive Act (σ : Type)
  | set (settings : List Request.Setting)
  | send (capacity : Nat)
  | elsewhere (f : Link σ → Link σ)

/-- All that was set, in its order. -/
def settings {σ : Type} (acts : List (Act σ)) : List Request.Setting :=
  acts.flatMap fun act => match act with
    | .set settings => settings
    | _ => []

/-- The link after what was done elsewhere, and nothing else. -/
def elsewhere {σ : Type} (l : Link σ) (acts : List (Act σ)) : Link σ :=
  acts.foldl (fun l act => match act with
    | .elsewhere f => f l
    | _ => l) l

variable {α σ : Type} [SingleUse α] [SecureTransport σ]

def step (x : α × Link σ) : Act σ → α × Link σ
  | .set settings => (apply x.1 settings, x.2)
  | .send capacity => (send x.1 x.2 capacity).2
  | .elsewhere f => (x.1, f x.2)

def run (x : α × Link σ) (acts : List (Act σ)) : α × Link σ := acts.foldl step x

variable {a : α} {l : Link σ} {r : Request}

/-- **Until it is sent**, a request takes the settings in their order, and they leave the connection
alone. -/
theorem run_unsent {acts : List (Act σ)} (hpending : pending a = some r)
    (hunsent : ∀ capacity, .send capacity ∉ acts) :
    pending (run (a, l) acts).1 = some (r.applyAll (settings acts)) ∧
      placed (run (a, l) acts).1 = placed a ∧ (run (a, l) acts).2 = elsewhere l acts := by
  induction acts generalizing a l r with
  | nil => exact ⟨hpending, rfl, rfl⟩
  | cons act acts ih =>
      have hrest (capacity : Nat) : .send capacity ∉ acts := fun hmem =>
        hunsent capacity (List.mem_cons_of_mem act hmem)
      cases act with
      | send capacity => exact absurd List.mem_cons_self (hunsent capacity)
      | elsewhere f => exact ih hpending hrest
      | set first =>
          have happlied : pending (apply a first) = some (r.applyAll first) := by
            rw [pending_apply, hpending, Option.map_some]
          obtain ⟨hlast, hplaced, hlink⟩ := ih (l := l) happlied hrest
          refine ⟨?_, hplaced.trans (placed_apply a first), hlink⟩
          refine hlast.trans (congrArg some ?_)
          exact (List.foldl_append ..).symm

/-- **Once it was sent**, there is nothing but what is done elsewhere. -/
theorem run_spent (hspent : pending a = none) (acts : List (Act σ)) :
    run (a, l) acts = (a, elsewhere l acts) := by
  induction acts generalizing l with
  | nil => rfl
  | cons act acts ih =>
      have hstep : step (a, l) act = (a, elsewhere l [act]) := by
        cases act with
        | set settings => exact Prod.ext (apply_spent settings hspent) rfl
        | send capacity =>
            show (send a l capacity).2 = _
            rw [send_spent l capacity hspent]
            rfl
        | elsewhere f => rfl
      show run (step (a, l) act) acts = _
      rw [hstep, ih]
      rfl

/-- A request whose holder is sent for the first time after the acts `first`, and then goes through
the acts `later`. `sent` is what comes of it. -/
structure GoesOutOnce (a : α) (l : Link σ) (first : List (Act σ)) (capacity : Nat)
    (later : List (Act σ)) (sent : Except Failure Response × Link σ) : Prop where
  /-- Before it is sent, it leaves the connection alone. -/
  before : (run (a, l) first).2 = elsewhere l first
  outcome_eq : (send (run (a, l) first).1 (run (a, l) first).2 capacity).1 = sent.1
  link_eq : (run (a, l) (first ++ [.send capacity])).2 = sent.2
  /-- Afterwards it leaves it alone again. -/
  after : (run (a, l) (first ++ .send capacity :: later)).2 = elsewhere sent.2 later
  refused (capacity' : Nat) :
    send (run (a, l) (first ++ .send capacity :: later)).1 (elsewhere sent.2 later) capacity'
      = (.error .alreadySent, run (a, l) (first ++ .send capacity :: later))
  idle (settings : List Request.Setting) :
    apply (run (a, l) (first ++ .send capacity :: later)).1 settings
      = (run (a, l) (first ++ .send capacity :: later)).1

/-- **A request goes out once**: at the first call that sends, with what was set until then. -/
theorem goesOutOnce {first : List (Act σ)} (hpending : pending a = some r)
    (hunsent : ∀ capacity, .send capacity ∉ first) (l : Link σ) (capacity : Nat)
    (later : List (Act σ)) :
    GoesOutOnce a l first capacity later
      ((elsewhere l first).send (placed a (r.applyAll (settings first))) capacity) := by
  obtain ⟨hlast, hplaced, hlink⟩ := run_unsent (l := l) hpending hunsent
  obtain ⟨a', hspent, hsend⟩ := send_pending (run (a, l) first).2 capacity hlast
  rw [hplaced, hlink] at hsend
  have hsent (acts : List (Act σ)) : run (a, l) (first ++ .send capacity :: acts)
      = (a', elsewhere ((elsewhere l first).send (placed a (r.applyAll (settings first)))
          capacity).2 acts) := by
    rw [run, List.foldl_append, List.foldl_cons]
    show run (send (run (a, l) first).1 (run (a, l) first).2 capacity).2 acts = _
    rw [hlink, hsend]
    exact run_spent hspent acts
  refine ⟨hlink, ?_, ?_, ?_, ?_, ?_⟩
  · rw [hlink, hsend]
  · exact congrArg Prod.snd (hsent [])
  · rw [hsent]
  · intro capacity'
    rw [hsent]
    exact send_spent _ capacity' hspent
  · intro settings
    rw [hsent]
    exact apply_spent settings hspent

end SingleUse

/-! ## Builders and resources -/

theorem Request.method_applyAll (r : Request) (settings : List Setting) :
    (r.applyAll settings).method = r.method := by
  induction settings generalizing r with
  | nil => rfl
  | cons setting settings ih =>
      refine (ih (r.apply setting)).trans ?_
      cases setting <;> rfl

/-- A host that is filled in before the settings is the one that stands in where they name none. -/
theorem Request.applyAll_host (r : Request) (host : Bytes) (settings : List Setting) :
    ({ r with host := r.host <|> some host } : Request).applyAll settings
      = { r.applyAll settings with host := (r.applyAll settings).host <|> some host } := by
  induction settings generalizing r with
  | nil => rfl
  | cons setting settings ih =>
      show Request.applyAll _ settings = _
      refine Eq.trans ?_ (ih (r.apply setting))
      cases setting <;> rfl

/-- **A builder and its resource** make the same of a request that the same was set on. -/
theorem Resource.place_applyAll (s : Resource) (method : Method) (path : Bytes)
    (settings : List Request.Setting) :
    { ({ Request.make method path with host := some s.url.host } : Request).applyAll settings with
      basePath := some s.url.path } = s.place ((Request.make method path).applyAll settings) := by
  have hhost := (Request.make method path).applyAll_host s.url.host settings
  have hmake : ((Request.make method path).host <|> some s.url.host) = some s.url.host := rfl
  rw [hmake] at hhost
  rw [hhost]
  rfl

/-! ## What goes out -/

open SingleUse

variable {σ : Type} [SecureTransport σ]

/-- **Handles and builders go out once, and the two ways through a resource agree.** Whatever is set
on them, however often they are sent, whatever is done in between with their connections and
whatever comes of the calls: the first call that sends is that of the request with all that was set
before. For a builder it is the one that its resource makes on an equal link of a request with the
same settings, with its outcome and all that it does to the link. -/
theorem requests_sent_once (l : Link σ) {first : List (Act σ)}
    (hfirst : ∀ capacity, .send capacity ∉ first) (capacity : Nat) (later : List (Act σ)) :
    (∀ (h : Handle) (r : Request), h.pending = some r →
      GoesOutOnce h l first capacity later
        ((elsewhere l first).send (r.applyAll (settings first)) capacity)) ∧
    ∀ (s : Resource) (method : Method) (path : Bytes),
      GoesOutOnce (s.request method path) l first capacity later
        (s.send (elsewhere l first) ((Request.make method path).applyAll (settings first))
          capacity) := by
  constructor
  · intro h r hpending
    exact goesOutOnce (a := h) hpending hfirst l capacity later
  · intro s method path
    have honce := goesOutOnce (a := s.request method path) rfl hfirst l capacity later
    have hplace := s.place_applyAll method path (settings first)
    rw [Resource.send, ← hplace]
    exact honce

/-- A builder that is sent again, with another path, on a connection that was closed meanwhile. -/
theorem requests_sent_once_again :
    let s : Resource := ⟨⟨.http, ascii "a.test", 80, ascii "/api"⟩⟩
    let l := Script.connected [shortHead ++ ascii "hi"]
    let first : List (Act Script) := [.set [.path (ascii "v2")]]
    let later : List (Act Script) :=
      [.set [.path (ascii "v3")], .send 64, .elsewhere fun l => l.close, .send 64]
    (∃ r, (s.send l ((Request.make .get (ascii "v1")).applyAll [.path (ascii "v2")]) 64).1 = .ok r) ∧
    (run (s.request .get (ascii "v1"), l) (first ++ .send 64 :: later)).2
      = (s.send l ((Request.make .get (ascii "v1")).applyAll [.path (ascii "v2")]) 64).2.close := by
  intro s l first later
  have hfirst (capacity : Nat) : .send capacity ∉ first := by
    intro hmem
    cases List.mem_singleton.mp hmem
  have hset : settings first = [.path (ascii "v2")] := rfl
  have hlink : elsewhere l first = l := rfl
  have hlater (l : Link Script) : elsewhere l later = l.close := rfl
  have hafter := ((requests_sent_once l hfirst 64 later).2 s .get (ascii "v1")).after
  rw [hset, hlink, hlater] at hafter
  refine ⟨?_, hafter⟩
  have hok : (s.send l ((Request.make .get (ascii "v1")).applyAll [.path (ascii "v2")]) 64).1.isOk
      = true := by decide +kernel
  rcases hsent : (s.send l _ 64).1 with failure | r
  · rw [hsent] at hok
    cases hok
  · exact ⟨r, rfl⟩

end HttpExchange
