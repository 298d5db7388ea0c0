import HttpExchange.Proofs.Usage

/-!
# Responses that are moved

Programs keep responses in places, and a response moves from place to place. What it leaves behind
looks like it and has no body to give. A place is overwritten when another response moves onto it,
whatever that was, and a response may even move onto itself.

* `Responses`, `Responses.step`: connections, the responses that are around, and what is done.
* `Custody`: where a response is, told by the acts alone.
* `Custody.Kept`: what is at these places, which every act preserves (`Custody.Kept.step`).
* `Response.handed_out_once`: of one response one reader is handed out.
-/

namespace HttpExchange

/-- A response with the connection that it came on. -/
structure Placed where
  response : Response
  connection : Nat
deriving DecidableEq

/-- Some connections, and the places of the responses that are around. -/
structure Responses (σ : Type) where
  links : List (Link σ)
  places : List Placed

namespace Responses

variable {σ : Type}

/-- What is done to connections and responses. -/
inductive Act (σ : Type)
  /-- A response is read on a connection, to a place that did not exist before. -/
  | read (connection : Nat) (method : Method) (capacity : Nat)
  /-- A response moves to a place that did not exist before. -/
  | moveOut (source : Nat)
  /-- A response moves to a place where another is, or to its own. -/
  | moveOnto (source target : Nat)
  /-- A response is asked for the reader of its body. -/
  | body (place : Nat)
  /-- Anything is done to the connections. -/
  | elsewhere (f : List (Link σ) → List (Link σ))

def moveOut (w : Responses σ) (i : Nat) : Responses σ :=
  match w.places[i]? with
  | none => w
  | some p =>
    let (moved, left) := p.response.move
    { w with places := w.places.set i { p with response := left } ++ [{ p with response := moved }] }

def moveOnto (w : Responses σ) (i j : Nat) : Responses σ :=
  match w.places[i]?, w.places[j]? with
  | some p, some _ =>
    let (moved, left) := p.response.moveOnto (i == j)
    { w with places :=
        (w.places.set i { p with response := left }).set j { p with response := moved } }
  | _, _ => w

/-- A reader is handed out together with the connection that it reads from. -/
def body (w : Responses σ) (i : Nat) : Option (Except Failure (BodyReader × Nat)) × Responses σ :=
  match w.places[i]? with
  | none => (none, w)
  | some p =>
    let (outcome, left) := p.response.body
    (some (outcome.map fun reader => (reader, p.connection)),
      { w with places := w.places.set i { p with response := left } })

variable [SecureTransport σ]

def read (w : Responses σ) (i : Nat) (method : Method) (capacity : Nat) : Responses σ :=
  match w.links[i]? with
  | none => w
  | some l =>
    match Response.read l method capacity with
    | (.error _, l) => { w with links := w.links.set i l }
    | (.ok response, l) => ⟨w.links.set i l, w.places ++ [⟨response, i⟩]⟩

def step (w : Responses σ) : Act σ → Responses σ
  | .read i method capacity => w.read i method capacity
  | .moveOut i => w.moveOut i
  | .moveOnto i j => w.moveOnto i j
  | .body i => (w.body i).2
  | .elsewhere f => { w with links := f w.links }

def run (w : Responses σ) (acts : List (Act σ)) : Responses σ := acts.foldl step w

end Responses

/-! ## Where a response is -/

/-- Where a response is, where it has left something behind, and whether it has been asked for the
reader of its body. -/
structure Custody where
  holder : Option Nat
  left : List Nat
  asked : Bool
deriving DecidableEq, Repr

namespace Custody

variable {σ : Type}

/-- A response that was just read to a place. -/
def start (place : Nat) : Custody := ⟨some place, [], false⟩

/-- What is at one place moves to another, and what was at the other is gone. -/
def carry (c : Custody) (i j : Nat) : Custody :=
  if i = j then c
  else if c.holder = some i then { c with holder := some j, left := i :: c.left.filter (· != j) }
  else { c with
    holder := c.holder.filter (· != j)
    left := if i ∈ c.left then j :: c.left else c.left.filter (· != j) }

/-- After an act, where there are so many places. -/
def step (c : Custody) (places : Nat) : Responses.Act σ → Custody
  | .moveOut i => if i < places then c.carry i places else c
  | .moveOnto i j => if i < places ∧ j < places then c.carry i j else c
  | .body i => { c with asked := c.asked || c.holder == some i }
  | .read .. | .elsewhere _ => c

/-- The response is at a place, or it has left something behind there. -/
def Shows (c : Custody) (i : Nat) : Prop := c.holder = some i ∨ i ∈ c.left

instance (c : Custody) (i : Nat) : Decidable (c.Shows i) :=
  inferInstanceAs (Decidable (c.holder = some i ∨ i ∈ c.left))

variable [SecureTransport σ]

def run (c : Custody) (w : Responses σ) : List (Responses.Act σ) → Custody
  | [] => c
  | act :: acts => (c.step w.places.length act).run (w.step act) acts

/-- The reader that an act hands out for the response, if it is asked for at one of its places. -/
def grant (c : Custody) (w : Responses σ) : Responses.Act σ → List (BodyReader × Nat)
  | .body i => if c.Shows i then ((w.body i).1.bind Except.toOption).toList else []
  | _ => []

/-- All the readers that are handed out for the response. -/
def granted (c : Custody) (w : Responses σ) : List (Responses.Act σ) → List (BodyReader × Nat)
  | [] => []
  | act :: acts => c.grant w act ++ (c.step w.places.length act).granted (w.step act) acts

end Custody

/-! ## What is at the places -/

namespace Response

variable {r : Response}

theorem take_of_taken (h : r.bodyTaken = true) : r.take = r := by
  obtain ⟨method, status, reason, block, framing, room, staged, bodyTaken⟩ := r
  subst h
  rfl

theorem body_of_taken (h : r.bodyTaken = true) : r.body = (.error .bodyTaken, r) := by
  rw [body, if_pos h]

theorem body_of_untaken (h : r.bodyTaken = false) :
    r.body = (.ok (.make r.framing r.room r.staged), r.take) := by
  rw [body, if_neg (h ▸ Bool.false_ne_true)]

/-- What a response is after it has been asked for its reader. -/
theorem body_snd (r : Response) : r.body.2 = r.take := by
  rcases h : r.bodyTaken with _ | _
  · rw [body_of_untaken h]
  · rw [body_of_taken h, take_of_taken h]

end Response

/-- The same place, with the right to the body gone. -/
def Placed.spent (p : Placed) : Placed := { p with response := p.response.take }

namespace Responses

variable {σ : Type} {w : Responses σ} {i j : Nat} {p q : Placed}

/-- What was at one place is at another, and what is left behind is spent. -/
structure Moved (w w' : Responses σ) (i j : Nat) (p : Placed) : Prop where
  links_eq : w'.links = w.links
  target : w'.places[j]? = some p
  source : w'.places[i]? = some p.spent
  other : ∀ m, m ≠ i → m ≠ j → w'.places[m]? = w.places[m]?

theorem lt_length (hp : w.places[i]? = some p) : i < w.places.length :=
  (List.getElem?_eq_some_iff.mp hp).1

theorem moved_moveOut (hp : w.places[i]? = some p) :
    Moved w (w.moveOut i) i w.places.length p := by
  have hi := lt_length hp
  have heq : w.moveOut i = { w with places := w.places.set i p.spent ++ [p] } := by
    rw [moveOut, hp]
    rfl
  rw [heq]
  refine ⟨rfl, ?_, ?_, ?_⟩
  · simp
  · simp [List.getElem?_append, hi]
  · intro m hsource htarget
    rcases Nat.lt_or_gt_of_ne htarget with hm | hm
    · simp [List.getElem?_append, hm, Ne.symm hsource]
    · rw [List.getElem?_eq_none, List.getElem?_eq_none (Nat.le_of_lt hm)]
      simpa [Nat.succ_le_iff] using hm

theorem moved_moveOnto (hp : w.places[i]? = some p) (hq : w.places[j]? = some q) (hij : i ≠ j) :
    Moved w (w.moveOnto i j) i j p := by
  have hi := lt_length hp
  have hj := lt_length hq
  have heq : w.moveOnto i j = { w with places := (w.places.set i p.spent).set j p } := by
    rw [moveOnto, hp, hq]
    simp only [Response.moveOnto, beq_false_of_ne hij]
    rfl
  rw [heq]
  refine ⟨rfl, ?_, ?_, ?_⟩
  · simp [hj]
  · simp [hi, hij.symm]
  · intro m hsource htarget
    simp [Ne.symm hsource, Ne.symm htarget]

/-- **A response that moves onto itself** stays as it is. -/
theorem moveOnto_self (w : Responses σ) (i : Nat) : w.moveOnto i i = w := by
  rcases hp : w.places[i]? with _ | p
  · rw [moveOnto, hp]
  · obtain ⟨hi, hget⟩ := List.getElem?_eq_some_iff.mp hp
    have hset : w.places.set i p = w.places := by rw [← hget, List.set_getElem_self]
    rw [moveOnto, hp]
    simp only [Response.moveOnto, beq_self_eq_true, if_true]
    show { w with places := (w.places.set i p).set i p } = w
    rw [hset, hset]

theorem body_eq (hp : w.places[i]? = some p) : w.body i =
    (some (p.response.body.1.map fun reader => (reader, p.connection)),
      { w with places := w.places.set i p.spent }) := by
  rw [body, hp]
  simp only [Response.body_snd]
  rfl

theorem links_body (w : Responses σ) (i : Nat) : (w.body i).2.links = w.links := by
  rcases hp : w.places[i]? with _ | p
  · rw [body, hp]
  · rw [body_eq hp]

end Responses

namespace Custody

variable {σ : Type} {c : Custody} {w w' : Responses σ} {r : Response} {i j k : Nat} {p : Placed}

/-- The places of a response hold it, with the right to its body if it has not been asked for the
reader; what it has left behind is spent. -/
structure Kept (c : Custody) (w : Responses σ) (r : Response) (k : Nat) : Prop where
  holder : ∀ i, c.holder = some i → w.places[i]? = some ⟨if c.asked then r.take else r, k⟩
  left : ∀ i ∈ c.left, w.places[i]? = some ⟨r.take, k⟩

/-- A place more, or a change of the connections, does not matter. -/
theorem Kept.of_places (h : c.Kept w r k)
    (hplaces : ∀ (i : Nat) (p : Placed), w.places[i]? = some p → w'.places[i]? = some p) :
    c.Kept w' r k :=
  ⟨fun i hi => hplaces i _ (h.holder i hi), fun i hi => hplaces i _ (h.left i hi)⟩

theorem Kept.read [SecureTransport σ] (h : c.Kept w r k) (i : Nat) (method : Method)
    (capacity : Nat) : c.Kept (w.read i method capacity) r k := by
  refine h.of_places fun m p hm => ?_
  unfold Responses.read
  split
  · exact hm
  · split
    · exact hm
    · exact (List.getElem?_append_left (Responses.lt_length hm)).trans hm

/-- Whatever was asked for, a place that shows the response is spent by being asked or left. -/
theorem Kept.spent_eq (h : c.Kept w r k) (hi : c.Shows i) (hp : w.places[i]? = some p) :
    p.spent = ⟨r.take, k⟩ := by
  rcases hi with hi | hi
  · obtain rfl := Option.some.inj (hp.symm.trans (h.holder i hi))
    unfold Placed.spent
    split <;> rfl
  · obtain rfl := Option.some.inj (hp.symm.trans (h.left i hi))
    rfl

/-- **A move** takes a response, or what it left behind, to another place. -/
theorem Kept.carry (h : c.Kept w r k) (hmoved : w.Moved w' i j p) (hp : w.places[i]? = some p)
    (hij : i ≠ j) : (c.carry i j).Kept w' r k := by
  unfold Custody.carry
  rw [if_neg hij]
  by_cases hholder : c.holder = some i
  · -- The response itself moves. Behind it is what it is without its right.
    have hspent := h.spent_eq (.inl hholder) hp
    rw [if_pos hholder]
    refine ⟨?_, ?_⟩
    · rintro m ⟨⟩
      rw [hmoved.target, ← hp]
      exact h.holder i hholder
    · intro m hm
      rcases List.mem_cons.mp hm with rfl | hm
      · rw [hmoved.source, hspent]
      · obtain ⟨hmem, hne⟩ := List.mem_filter.mp hm
        by_cases hmi : m = i
        · rw [hmi, hmoved.source, hspent]
        · rw [hmoved.other m hmi (by simpa using hne)]
          exact h.left m hmem
  · rw [if_neg hholder]
    refine ⟨?_, ?_⟩
    · intro m hm
      obtain ⟨hm, hne⟩ := Option.filter_eq_some_iff.mp hm
      have hmi : m ≠ i := fun heq => hholder (heq ▸ hm)
      rw [hmoved.other m hmi (by simpa using hne)]
      exact h.holder m hm
    · by_cases hleft : i ∈ c.left
      · -- What it left behind moves, and is as spent as before.
        obtain rfl := Option.some.inj (hp.symm.trans (h.left i hleft))
        rw [if_pos hleft]
        intro m hm
        rcases List.mem_cons.mp hm with rfl | hm
        · exact hmoved.target
        · by_cases hmj : m = j
          · rw [hmj, hmoved.target]
          · by_cases hmi : m = i
            · rw [hmi, hmoved.source]
              rfl
            · rw [hmoved.other m hmi hmj]
              exact h.left m hm
      · rw [if_neg hleft]
        intro m hm
        obtain ⟨hmem, hne⟩ := List.mem_filter.mp hm
        have hmi : m ≠ i := fun heq => hleft (heq ▸ hmem)
        rw [hmoved.other m hmi (by simpa using hne)]
        exact h.left m hmem

theorem Kept.moveOut (h : c.Kept w r k) (i : Nat) :
    Kept (if i < w.places.length then c.carry i w.places.length else c) (w.moveOut i) r k := by
  rcases hp : w.places[i]? with _ | p
  · rw [if_neg (Nat.not_lt_of_le (List.getElem?_eq_none_iff.mp hp)), Responses.moveOut, hp]
    exact h
  · have hi := Responses.lt_length hp
    rw [if_pos hi]
    exact h.carry (Responses.moved_moveOut hp) hp (Nat.ne_of_lt hi)

theorem Kept.moveOnto (h : c.Kept w r k) (i j : Nat) :
    Kept (if i < w.places.length ∧ j < w.places.length then c.carry i j else c)
      (w.moveOnto i j) r k := by
  by_cases hij : i = j
  · have hcarry : c.carry i j = c := by rw [Custody.carry, if_pos hij]
    rw [hcarry, ite_self, ← hij, Responses.moveOnto_self]
    exact h
  · rcases hp : w.places[i]? with _ | p
    · have hi := List.getElem?_eq_none_iff.mp hp
      rw [if_neg (fun hlt => Nat.not_lt_of_le hi hlt.1), Responses.moveOnto, hp]
      exact h
    · rcases hq : w.places[j]? with _ | q
      · have hj := List.getElem?_eq_none_iff.mp hq
        rw [if_neg (fun hlt => Nat.not_lt_of_le hj hlt.2), Responses.moveOnto, hp, hq]
        exact h
      · rw [if_pos ⟨Responses.lt_length hp, Responses.lt_length hq⟩]
        exact h.carry (Responses.moved_moveOnto hp hq hij) hp hij

theorem Kept.body (h : c.Kept w r k) (i : Nat) :
    Kept { c with asked := c.asked || c.holder == some i } (w.body i).2 r k := by
  rcases hp : w.places[i]? with _ | p
  · have hholder : (c.holder == some i) = false := by
      refine beq_false_of_ne fun hi => ?_
      rw [h.holder i hi] at hp
      cases hp
    rw [hholder, Bool.or_false, Responses.body, hp]
    exact h
  · have hi := Responses.lt_length hp
    have hother (m : Nat) (hm : m ≠ i) : (w.places.set i p.spent)[m]? = w.places[m]? :=
      List.getElem?_set_ne (Ne.symm hm)
    have hself : (w.places.set i p.spent)[i]? = some p.spent := List.getElem?_set_self hi
    rw [Responses.body_eq hp]
    refine ⟨?_, ?_⟩
    · intro m hm
      by_cases hmi : m = i
      · have hholder : c.holder = some i := hmi ▸ hm
        simp only [hmi, hholder, beq_self_eq_true, Bool.or_true, if_true]
        rw [hself, h.spent_eq (.inl hholder) hp]
      · have hholder : (c.holder == some i) = false := by
          refine beq_false_of_ne fun hi => hmi (Option.some.inj (hm.symm.trans hi))
        rw [hother m hmi, hholder, Bool.or_false]
        exact h.holder m hm
    · intro m hm
      by_cases hmi : m = i
      · rw [hmi, hself, h.spent_eq (.inr (hmi ▸ hm)) hp]
      · rw [hother m hmi]
        exact h.left m hm

/-- **What every act preserves.** -/
theorem Kept.step [SecureTransport σ] (h : c.Kept w r k) (act : Responses.Act σ) :
    (c.step w.places.length act).Kept (w.step act) r k := by
  cases act with
  | read i method capacity => exact h.read i method capacity
  | moveOut i => exact h.moveOut i
  | moveOnto i j => exact h.moveOnto i j
  | body i => exact h.body i
  | elsewhere f => exact h.of_places fun _ _ hp => hp

theorem Kept.run [SecureTransport σ] (h : c.Kept w r k) (acts : List (Responses.Act σ)) :
    (c.run w acts).Kept (w.run acts) r k := by
  induction acts generalizing c w with
  | nil => exact h
  | cons act acts ih => exact ih (h.step act)

/-! ## Readers that are handed out -/

/-- The first to ask the holder gets the reader. -/
theorem Kept.body_first (h : c.Kept w r k) (hr : r.bodyTaken = false) (hi : c.holder = some i)
    (hasked : c.asked = false) :
    (w.body i).1 = some (.ok (.make r.framing r.room r.staged, k)) := by
  have hp := h.holder i hi
  rw [hasked] at hp
  rw [Responses.body_eq hp]
  simp only [Bool.false_eq_true, if_false, Response.body_of_untaken hr]
  rfl

/-- Whom else is asked, or asked again, gives nothing, and nothing happens. -/
theorem Kept.body_refused (h : c.Kept w r k)
    (hi : i ∈ c.left ∨ c.holder = some i ∧ c.asked = true) :
    w.body i = (some (.error .bodyTaken), w) := by
  have hp : w.places[i]? = some ⟨r.take, k⟩ := by
    rcases hi with hi | ⟨hi, hasked⟩
    · exact h.left i hi
    · have hp := h.holder i hi
      rwa [hasked, if_pos rfl] at hp
  have hset : w.places.set i (Placed.spent ⟨r.take, k⟩) = w.places := by
    obtain ⟨hi, hget⟩ := List.getElem?_eq_some_iff.mp hp
    show w.places.set i ⟨r.take, k⟩ = w.places
    rw [← hget, List.set_getElem_self]
  rw [Responses.body_eq hp, hset, Response.body_of_taken rfl]
  rfl

theorem asked_carry (c : Custody) (i j : Nat) : (c.carry i j).asked = c.asked := by
  unfold carry
  split
  · rfl
  · split <;> rfl

/-- The holder of the response is asked for the reader. -/
def asks (c : Custody) : Responses.Act σ → Bool
  | .body i => c.holder == some i
  | _ => false

theorem asked_step (c : Custody) (places : Nat) (act : Responses.Act σ) :
    (c.step places act).asked = (c.asked || c.asks act) := by
  cases act with
  | read => exact (Bool.or_false _).symm
  | moveOut i =>
      rw [step, apply_ite Custody.asked, asked_carry, ite_self]
      exact (Bool.or_false _).symm
  | moveOnto i j =>
      rw [step, apply_ite Custody.asked, asked_carry, ite_self]
      exact (Bool.or_false _).symm
  | body i => rfl
  | elsewhere => exact (Bool.or_false _).symm

/-- A reader is handed out to who asks the holder first. -/
theorem Kept.grant_eq (h : c.Kept w r k) (hr : r.bodyTaken = false) (act : Responses.Act σ) :
    c.grant w act =
      if c.asked = false ∧ c.asks act = true then [(.make r.framing r.room r.staged, k)] else [] := by
  cases act with
  | body i =>
      by_cases hfirst : c.asked = false ∧ c.holder = some i
      · obtain ⟨hasked, hholder⟩ := hfirst
        rw [grant, if_pos (.inl hholder), h.body_first hr hholder hasked, if_pos]
        · rfl
        · exact ⟨hasked, beq_iff_eq.mpr hholder⟩
      · have hrefused (hshows : c.Shows i) : w.body i = (some (.error .bodyTaken), w) := by
          refine h.body_refused ?_
          rcases hshows with hholder | hleft
          · exact .inr ⟨hholder, by simpa [hholder] using hfirst⟩
          · exact .inl hleft
        rw [if_neg fun hasks => hfirst ⟨hasks.1, beq_iff_eq.mp hasks.2⟩, grant]
        split
        · rename_i hshows
          rw [hrefused hshows]
          rfl
        · rfl
  | _ => exact (if_neg fun hasks => Bool.false_ne_true hasks.2).symm

variable [SecureTransport σ]

theorem asked_run (h : c.asked = true) (acts : List (Responses.Act σ)) :
    (c.run w acts).asked = true := by
  induction acts generalizing c w with
  | nil => exact h
  | cons act acts ih =>
      refine ih ?_
      rw [asked_step, h, Bool.true_or]

/-- **In a run** one reader is handed out, as soon as the holder is asked. -/
theorem Kept.granted_eq (h : c.Kept w r k) (hr : r.bodyTaken = false)
    (acts : List (Responses.Act σ)) :
    c.granted w acts =
      if c.asked = false ∧ (c.run w acts).asked = true then
        [(.make r.framing r.room r.staged, k)]
      else [] := by
  induction acts generalizing c w with
  | nil => exact (if_neg fun hasked => Bool.false_ne_true (hasked.1.symm.trans hasked.2)).symm
  | cons act acts ih =>
      have hstep := asked_step c w.places.length act
      have hstays (hasked : (c.step w.places.length act).asked = true) :
          ((c.step w.places.length act).run (w.step act) acts).asked = true :=
        asked_run hasked acts
      rw [granted, h.grant_eq hr act, ih (h.step act), Custody.run]
      rcases hbefore : c.asked with _ | _
      · rw [hbefore, Bool.false_or] at hstep
        rcases hasks : c.asks act with _ | _
        · simp [hstep, hasks]
        · simp [hstep, hasks, hstays (hstep.trans hasks)]
      · simp [hstep, hbefore]

end Custody

/-! ## One reader for a response -/

namespace Response

variable {σ : Type} [SecureTransport σ] {w : Responses σ} {l l' : Link σ} {r : Response}
  {k capacity : Nat} {method : Method}

/-- **One reader for a response.** A response that was read is moved about with others, in any way,
and readers are asked for. At most one is handed out for it, and that with the first call on the
place that holds it: the reader is the one of the response that was read, on its connection. A call
on a place that the response was moved from, and any further call on the one that holds it, is
refused, and it changes nothing. -/
theorem handed_out_once (hl : w.links[k]? = some l)
    (hread : Response.read l method capacity = (.ok r, l')) (acts : List (Responses.Act σ)) :
    let reader := BodyReader.make r.framing r.room r.staged
    let w₀ := w.step (.read k method capacity)
    let c₀ := Custody.start w.places.length
    let w' := w₀.run acts
    let c := c₀.run w₀ acts
    c₀.granted w₀ acts = (if c.asked = true then [(reader, k)] else []) ∧
    (∀ i, c.holder = some i → c.asked = false →
      (w'.body i).1 = some (.ok (reader, k)) ∧ (w'.body i).2.links = w'.links) ∧
    ∀ i, i ∈ c.left ∨ c.holder = some i ∧ c.asked = true →
      w'.body i = (some (.error .bodyTaken), w') := by
  intro reader w₀ c₀ w' c
  have hr : r.bodyTaken = false := (Link.readResponse_ok hread).1
  have hw₀ : w₀ = ⟨w.links.set k l', w.places ++ [⟨r, k⟩]⟩ := by
    show w.read k method capacity = _
    rw [Responses.read, hl]
    simp only [hread]
  have hkept : c₀.Kept w₀ r k := by
    rw [hw₀]
    refine ⟨?_, fun i hi => absurd hi List.not_mem_nil⟩
    rintro i ⟨⟩
    exact List.getElem?_concat_length
  have hkept' : c.Kept w' r k := hkept.run acts
  refine ⟨?_, ?_, ?_⟩
  · rw [hkept.granted_eq hr acts]
    simp only [c₀, Custody.start, true_and]
    rfl
  · exact fun i hi hasked => ⟨hkept'.body_first hr hi hasked, Responses.links_body w' i⟩
  · exact fun i hi => hkept'.body_refused hi

/-- A connection on which a response of two bytes arrives. -/
def twoBytes : Link Script :=
  ⟨.plain, .empty, { Script.empty with
    inbound := [ascii "HTTP/1.1 200 OK\r\nContent-Length: 2\r\n\r\nok"] }, []⟩

/-- A response of another connection is there, and its body was not asked for. -/
def occupied : Responses Script :=
  ⟨[twoBytes], [⟨⟨.get, ⟨404⟩, [], ⟨[]⟩, .fixed 3, 8, ascii "abc", false⟩, 1⟩]⟩

/-- The response moves out and onto itself, its old place is asked, it moves onto the other response,
is asked twice there, and moves back to its first place. -/
def wandering : List (Responses.Act Script) :=
  [.moveOut 1, .moveOnto 2 2, .body 1, .moveOnto 2 0, .body 0, .body 0, .moveOnto 0 1]

theorem handed_out_once_wandering :
    ∃ r l', Response.read twoBytes .get 128 = (.ok r, l') ∧
      (Custody.start 1).granted (occupied.step (.read 0 .get 128)) wandering
        = [(.make (.fixed 2) 90 (ascii "ok"), 0)] ∧
      ((occupied.step (.read 0 .get 128)).run wandering).body 1
        = (some (.error .bodyTaken), (occupied.step (.read 0 .get 128)).run wandering) := by
  rcases hread : Response.read twoBytes .get 128 with ⟨_ | r, l'⟩
  · have hok : (Response.read twoBytes .get 128).1.toOption.isSome = true := by decide +kernel
    rw [hread] at hok
    cases hok
  · have hcustody : (Custody.start 1).run (occupied.step (.read 0 .get 128)) wandering
        = ⟨some 1, [0, 2], true⟩ := by decide +kernel
    obtain ⟨hgranted, -, hrefused⟩ :=
      handed_out_once (w := occupied) (k := 0) rfl hread wandering
    have hreader : BodyReader.make r.framing r.room r.staged
        = .make (.fixed 2) 90 (ascii "ok") := by
      have hparts : (Response.read twoBytes .get 128).1.toOption.map
          (fun r => BodyReader.make r.framing r.room r.staged)
            = some (.make (.fixed 2) 90 (ascii "ok")) := by decide +kernel
      rw [hread] at hparts
      exact Option.some.inj hparts
    have hasked := congrArg Custody.asked hcustody
    rw [hreader] at hgranted
    refine ⟨r, l', rfl, hgranted.trans (if_pos hasked), hrefused 1 (.inr ⟨?_, hasked⟩)⟩
    exact congrArg Custody.holder hcustody

end Response

end HttpExchange
